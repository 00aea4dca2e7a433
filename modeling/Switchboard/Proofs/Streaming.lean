import Switchboard.Proofs.KeyedEntries
import Switchboard.Proofs.Polling

namespace Switchboard.Streaming
open Polling

-- The ways in which a body can be brought. A body is over when its reader says so, or when
-- it brings nothing; what stands after that is never asked for.
inductive Delivers : List Chunk → List UInt8 → Prop where
  | ended : Delivers [] []
  | closed (rest : List Chunk) : Delivers (.data [] :: rest) []
  | data {bytes body : List UInt8} {rest : List Chunk} (inhabited : bytes ≠ [])
      (more : Delivers rest body) : Delivers (.data bytes :: rest) (bytes ++ body)
  | pending {body : List UInt8} {rest : List Chunk} (more : Delivers rest body) :
      Delivers (.pending :: rest) body
  | interrupted {body : List UInt8} {rest : List Chunk} (more : Delivers rest body) :
      Delivers (.interrupted :: rest) body

inductive Breaks : List Chunk → String → Prop where
  | failure (message : String) (rest : List Chunk) : Breaks (.failure message :: rest) message
  | data {bytes : List UInt8} {message : String} {rest : List Chunk} (inhabited : bytes ≠ [])
      (more : Breaks rest message) : Breaks (.data bytes :: rest) message
  | pending {message : String} {rest : List Chunk} (more : Breaks rest message) :
      Breaks (.pending :: rest) message
  | interrupted {message : String} {rest : List Chunk} (more : Breaks rest message) :
      Breaks (.interrupted :: rest) message

theorem contents_delivered {chunks : List Chunk} {body : List UInt8} (delivers : Delivers chunks body)
    (gathered : List UInt8) : Reader.contentsFrom gathered chunks = .ok (gathered ++ body) := by
  induction delivers generalizing gathered with
  | ended | closed => simp [Reader.contentsFrom]
  | @data bytes body rest inhabited _ ih =>
      cases bytes with
      | nil => exact absurd rfl inhabited
      | cons b bs => rw [Reader.contentsFrom,ih,List.append_assoc]
  | pending _ ih | interrupted _ ih => exact ih gathered

theorem contents_broken {chunks : List Chunk} {message : String} (breaks : Breaks chunks message)
    (gathered : List UInt8) : Reader.contentsFrom gathered chunks = .error message := by
  induction breaks generalizing gathered with
  | failure message rest => rfl
  | @data bytes message rest inhabited _ ih =>
      cases bytes with
      | nil => exact absurd rfl inhabited
      | cons b bs => exact ih (gathered ++ b :: bs)
  | pending _ ih | interrupted _ ih => exact ih gathered

theorem withHeaders (entries : List (String × String)) (p : Payload) :
    entries.foldl (fun p entry => p.withHeader entry.1 entry.2) p =
      { p with headers := entries.foldl (fun map entry => map.insert entry.1 entry.2) p.headers } := by
  induction entries generalizing p with
  | nil => rfl
  | cons entry rest ih => rw [List.foldl_cons,ih]; rfl

-- Header by header, a payload gets back just the headers that were set aside.
theorem assembled_exact (contentType : Option String) (headers : Headers) (body : List UInt8) :
    LazyValue.assembled contentType headers body = ⟨contentType,headers,body⟩ := by
  have filled := SortedMap.ofList_entries headers
  unfold SortedMap.ofList at filled
  unfold LazyValue.assembled
  cases contentType with
  | none => simp only [withHeaders,Payload.untyped,filled]
  | some given => simp only [withHeaders,Payload.typed,filled]

theorem payload_delivered (s : Serializer) (headers : Headers) {chunks : List Chunk} {body : List UInt8}
    (delivers : Delivers chunks body) :
    (LazyValue.ofReader s headers (.ofChunks chunks)).payload = .ok (.ofHeaders headers body) := by
  have contents : (Reader.ofChunks chunks).contents = .ok body := contents_delivered delivers []
  simp only [LazyValue.payload,LazyValue.ofReader,contents,LazyValue.gathered,assembled_exact]
  rfl

theorem payload_broken (s : Serializer) (headers : Headers) {chunks : List Chunk} {message : String}
    (breaks : Breaks chunks message) :
    (LazyValue.ofReader s headers (.ofChunks chunks)).payload = .error (.read message) := by
  have contents : (Reader.ofChunks chunks).contents = .error message := contents_broken breaks []
  simp only [LazyValue.payload,LazyValue.ofReader,contents,LazyValue.gathered]

-- A buffered input answers the first poll; a streamed one answers the first poll after its
-- chunks have stopped keeping it waiting, and from then on the two are the same.
theorem streaming_exact (s : Serializer) (headers : Headers) (chunks : List Chunk) :
    let streamed := LazyValue.ofReader s headers (.ofChunks chunks)
    (∀ body, Delivers chunks body →
      let buffered := LazyValue.ofPayload s (.ofHeaders headers body)
      streamed.contentType = buffered.contentType ∧ streamed.headers = buffered.headers ∧
      ∀ turns : List Turn, waits chunks < turns.length →
        (∃ result, answerIn streamed.intoPayload turns = some result ∧
          answerIn buffered.intoPayload turns = some result) ∧
        ∀ t, ∃ result, answerIn (streamed.consume t) turns = some result ∧
          answerIn (buffered.consume t) turns = some result) ∧
    ∀ message, Breaks chunks message → ∀ turns : List Turn, waits chunks < turns.length →
      answerIn streamed.intoPayload turns = some (.error (.read message)) ∧
      ∀ t, answerIn (streamed.consume t) turns = some (.error (.read message)) := by
  intro streamed
  refine ⟨fun body delivers => ?_,fun message breaks turns there => ?_⟩
  · intro buffered
    have same : streamed.payload = buffered.payload := payload_delivered s headers delivers
    have read : ∀ t, streamed.consumed t = buffered.consumed t := by
      intro t; simp only [LazyValue.consumed,same]; rfl
    refine ⟨rfl,rfl,fun turns there => ?_⟩
    have first : buffered.waits < turns.length := Nat.zero_lt_of_lt there
    have later : streamed.waits < turns.length := there
    refine ⟨⟨streamed.payload,?_,?_⟩,fun t => ⟨streamed.consumed t,?_,?_⟩⟩
    · rw [LazyValue.answer_intoPayload,if_pos later]
    · rw [LazyValue.answer_intoPayload,if_pos first,same]
    · rw [LazyValue.answer_consume,if_pos later]
    · rw [LazyValue.answer_consume,if_pos first,read]
  · have broken : streamed.payload = .error (.read message) := payload_broken s headers breaks
    have later : streamed.waits < turns.length := there
    refine ⟨?_,fun t => ?_⟩
    · rw [LazyValue.answer_intoPayload,if_pos later,broken]
    · rw [LazyValue.answer_consume,if_pos later,LazyValue.consumed,broken]

def idle : Turn := ⟨fun _ => 0,false,true,0,0,[]⟩

def halting : List Chunk := [.data [0x31],.pending,.interrupted,.data [0x32],.data [],.failure "late"]

def cut : List Chunk := [.data [0x31],.failure "gone"]

theorem interrupted_body_read_as_whole_broken_one_failed :
    Delivers halting [0x31,0x32] ∧ Breaks cut "gone" ∧
    ∀ t, (∃ result,
      answerIn ((LazyValue.ofReader .standard .empty (.ofChunks halting)).consume t) [idle,idle] = some result ∧
      answerIn ((LazyValue.ofPayload .standard (.ofHeaders .empty [0x31,0x32])).consume t) [idle,idle] =
        some result) ∧
      answerIn ((LazyValue.ofReader .standard .empty (.ofChunks cut)).consume t) [idle] =
        some (.error (.read "gone")) := by
  have delivers : Delivers halting [0x31,0x32] :=
    .data (by simp) (.pending (.interrupted (.data (by simp) (.closed _))))
  have breaks : Breaks cut "gone" := .data (by simp) (.failure _ _)
  refine ⟨delivers,breaks,fun t => ⟨?_,?_⟩⟩
  · exact (((streaming_exact .standard .empty halting).1 _ delivers).2.2 [idle,idle] (by decide)).2 t
  · exact ((streaming_exact .standard .empty cut).2 _ breaks [idle] (by decide)).2 t

end Switchboard.Streaming
