import Switchboard.Operation.Readymade
import Switchboard.Proofs.BuiltIn
import Switchboard.Proofs.Polling
import Switchboard.Proofs.Resolution

namespace Switchboard.Dispatching
open Polling

def Synchronous (h : Handler) : Prop :=
  ∀ entry ∈ h.services.entries, ∀ op ∈ entry.2.operations.held.entries,
    ∃ name input output function, op.2 = .sync name input output function

theorem resolved_sync {h : Handler} (synchronous : Synchronous h) {service operation : String}
    {op : Operation} (found : h.resolve service operation = .ok op) :
    ∃ name input output function, op = .sync name input output function := by
  rcases Resolution.resolve_cases h service operation with ⟨_,_,missing⟩ | ⟨_,_,_,_,missing⟩ |
    ⟨s,other,there,present,_,resolved⟩
  · cases missing.symm.trans found
  · cases missing.symm.trans found
  · cases resolved.symm.trans found
    obtain ⟨entry,member,rfl⟩ := SortedMap.find?_mem there
    obtain ⟨held,inside,rfl⟩ := SortedMap.find?_mem present
    exact synchronous entry member held inside

section Call

variable (h : Handler) (service operation : String) (input : LazyValue) (options : StartOptions)
  (turns : List Turn)

-- The operation is there and its input has been read as this value.
structure Invoked {i o : Ty} (function : Operation.Function i o) (x : i.Value) : Prop where
  found : ∃ name, h.resolve service operation = .ok (.sync name i o function)
  read : answerIn (input.consume i) turns = some (.ok x)

-- What the function itself comes to. Its run begins in the poll in which its input is there.
def own {i o : Ty} (function : Operation.Function i o) (x : i.Value) :
    Option (Except HandlerError o.Value) :=
  answerIn (.ofJob (function ⟨service,operation,options.requestId,options.headers⟩ x options))
    (turns.drop input.waits)

inductive Ends : Response → Prop where
  | notFound {e : NotFound} (polled : turns ≠ []) (missing : h.resolve service operation = .error e) :
      Ends (.error (.notFound e))
  | unread {name : String} {i o : Ty} {function : Operation.Function i o} {e : SerializationError}
      (found : h.resolve service operation = .ok (.sync name i o function))
      (failed : answerIn (input.consume i) turns = some (.error e)) : Ends (.error (.serialization e))
  | returned {i o : Ty} {function : Operation.Function i o} {x : i.Value} {y : o.Value}
      (invoked : Invoked h service operation input turns function x)
      (ended : own service operation input options turns function x = some (.ok y)) :
      Ends (.ok (.sync (.of o y)))
  | failed {i o : Ty} {function : Operation.Function i o} {x : i.Value} {e : OperationError}
      (invoked : Invoked h service operation input turns function x)
      (ended : own service operation input options turns function x = some (.error (.operation e))) :
      Ends (.ok (.failed e))
  | refused {i o : Ty} {function : Operation.Function i o} {x : i.Value} {kind : ErrorKind}
      {text : String} {causes : List String}
      (invoked : Invoked h service operation input turns function x)
      (ended : own service operation input options turns function x =
        some (.error (.request kind text causes))) :
      Ends (.error (.handler (.request kind text causes)))

variable {h service operation}

theorem start_missing {e : NotFound} (missing : h.resolve service operation = .error e) :
    course (h.start service operation input options) turns = course (.done (.error (.notFound e))) turns := by
  have start : h.start service operation input options = .log e.event (.done (.error (.notFound e))) := by
    simp only [Handler.start,missing]; rfl
  rw [start,course_log]

theorem start_found {name : String} {i o : Ty} {function : Operation.Function i o}
    (found : h.resolve service operation = .ok (.sync name i o function)) :
    course (h.start service operation input options) turns =
      course (match input.consumed i with
        | .error e => .done (.error (.serialization e))
        | .ok x => .invoke ((Work.ofJob (function (.ofCall service operation options) x options)).bind
            (fun result => .done (Operation.respond o result))))
        (turns.drop input.waits) := by
  have start : h.start service operation input options =
      .log (.dispatching service operation options.requestId input.contentType)
        ((Operation.sync name i o function).start (.ofCall service operation options) input options) := by
    simp only [Handler.start,found]; rfl
  rw [start,course_log]
  change course ((input.consume i).bind _) turns = _
  rw [LazyValue.course_consume]
  cases input.consumed i with
  | error e => rfl
  | ok x => rfl

theorem course_missing {e : NotFound} (missing : h.resolve service operation = .error e) :
    course (h.start service operation input options) turns =
      (if turns = [] then none else some (.error (.notFound e)),0) := by
  rw [start_missing input options turns missing,course_done]

theorem course_waiting {name : String} {i o : Ty} {function : Operation.Function i o}
    (found : h.resolve service operation = .ok (.sync name i o function))
    (waiting : answerIn (input.consume i) turns = none) :
    course (h.start service operation input options) turns = (none,0) := by
  have short : turns.drop input.waits = [] := by
    rw [LazyValue.answer_consume] at waiting
    split at waiting
    · cases waiting
    · rename_i early; exact List.drop_eq_nil_of_le (Nat.le_of_not_lt early)
  rw [start_found input options turns found,short]
  rfl

theorem consumed_of_answer {i : Ty} {result : Except SerializationError i.Value}
    (read : answerIn (input.consume i) turns = some result) :
    input.consumed i = result ∧ ∃ turn rest, turns.drop input.waits = turn :: rest := by
  rw [LazyValue.answer_consume] at read
  split at read
  · rename_i there
    exact ⟨Option.some.inj read,List.exists_cons_of_length_pos (by rw [List.length_drop]; omega)⟩
  · cases read

theorem course_unread {name : String} {i o : Ty} {function : Operation.Function i o} {e : SerializationError}
    (found : h.resolve service operation = .ok (.sync name i o function))
    (failed : answerIn (input.consume i) turns = some (.error e)) :
    course (h.start service operation input options) turns = (some (.error (.serialization e)),0) := by
  obtain ⟨error,turn,rest,there⟩ := consumed_of_answer input turns failed
  rw [start_found input options turns found,error,there,course_done]
  rfl

theorem course_invoked {i o : Ty} {function : Operation.Function i o} {x : i.Value}
    (invoked : Invoked h service operation input turns function x) :
    course (h.start service operation input options) turns =
      ((own service operation input options turns function x).map (Operation.respond o),1) := by
  obtain ⟨⟨name,found⟩,read⟩ := invoked
  obtain ⟨value,turn,rest,there⟩ := consumed_of_answer input turns read
  rw [start_found input options turns found,own,answerIn,value,there]
  simp only [course_invoke,course_map,course_job]
  rfl

-- Whatever is asked for and however it is polled, a call is in one of these four positions.
theorem start_cases (synchronous : Synchronous h) :
    (∃ e, h.resolve service operation = .error e) ∨
    ∃ name i o, ∃ function : Operation.Function i o,
      h.resolve service operation = .ok (.sync name i o function) ∧
      (answerIn (input.consume i) turns = none ∨
        (∃ e, answerIn (input.consume i) turns = some (.error e)) ∨
        ∃ x, Invoked h service operation input turns function x) := by
  cases resolved : h.resolve service operation with
  | error e => exact .inl ⟨e,rfl⟩
  | ok op =>
      obtain ⟨name,i,o,function,rfl⟩ := resolved_sync synchronous resolved
      refine .inr ⟨name,i,o,function,rfl,?_⟩
      cases read : answerIn (input.consume i) turns with
      | none => exact .inl rfl
      | some result =>
          cases result with
          | error e => exact .inr (.inl ⟨e,rfl⟩)
          | ok x => exact .inr (.inr ⟨x,⟨name,resolved⟩,read⟩)

theorem ends_of_own {i o : Ty} {function : Operation.Function i o} {x : i.Value} {response : Response}
    (invoked : Invoked h service operation input turns function x)
    (answered : (own service operation input options turns function x).map (Operation.respond o) =
      some response) :
    Ends h service operation input options turns response := by
  obtain ⟨result,ended,rfl⟩ := Option.map_eq_some_iff.mp answered
  cases result with
  | ok y => exact .returned invoked ended
  | error e =>
      cases e with
      | operation e => exact .failed invoked ended
      | request kind text causes => exact .refused invoked ended

theorem answer_ends (synchronous : Synchronous h) (response : Response) :
    answerIn (h.start service operation input options) turns = some response ↔
      Ends h service operation input options turns response := by
  unfold answerIn
  constructor
  · intro answered
    rcases start_cases input turns synchronous with
      ⟨e,missing⟩ | ⟨name,i,o,function,found,waiting | ⟨e,failed⟩ | ⟨x,invoked⟩⟩
    · rw [course_missing input options turns missing] at answered
      by_cases polled : turns = []
      · simp [polled] at answered
      · simp only [polled,if_false,Option.some.injEq] at answered
        exact answered ▸ .notFound polled missing
    · rw [course_waiting input options turns found waiting] at answered
      cases answered
    · rw [course_unread input options turns found failed] at answered
      cases answered
      exact .unread found failed
    · rw [course_invoked input options turns invoked] at answered
      exact ends_of_own input options turns invoked answered
  · intro ends
    cases ends with
    | notFound polled missing => simp [course_missing input options turns missing,polled]
    | unread found failed => rw [course_unread input options turns found failed]
    | returned invoked ended | failed invoked ended | refused invoked ended =>
        rw [course_invoked input options turns invoked,ended]
        rfl

theorem starts_exact (synchronous : Synchronous h) :
    startsIn (h.start service operation input options) turns ≤ 1 ∧
    (startsIn (h.start service operation input options) turns = 1 ↔
      ∃ i o, ∃ function : Operation.Function i o, ∃ x, Invoked h service operation input turns function x) := by
  unfold startsIn
  have once : ∀ {i o : Ty} {function : Operation.Function i o} {x : i.Value},
      Invoked h service operation input turns function x →
        (course (h.start service operation input options) turns).2 = 1 := by
    intro i o function x invoked
    rw [course_invoked input options turns invoked]
  have never : (course (h.start service operation input options) turns).2 = 0 →
      (course (h.start service operation input options) turns).2 ≤ 1 ∧
      ((course (h.start service operation input options) turns).2 = 1 ↔
        ∃ i o, ∃ function : Operation.Function i o, ∃ x, Invoked h service operation input turns function x) := by
    intro none
    refine ⟨by omega,⟨fun one => by omega,?_⟩⟩
    rintro ⟨i,o,function,x,invoked⟩
    have := once invoked
    omega
  rcases start_cases input turns synchronous with
    ⟨e,missing⟩ | ⟨name,i,o,function,found,waiting | ⟨e,failed⟩ | ⟨x,invoked⟩⟩
  · exact never (by rw [course_missing input options turns missing])
  · exact never (by rw [course_waiting input options turns found waiting])
  · exact never (by rw [course_unread input options turns found failed])
  · exact ⟨Nat.le_of_eq (once invoked),fun _ => ⟨i,o,function,x,invoked⟩,fun _ => once invoked⟩

-- A built-in serializer never blames the reader, so only the reader itself can.
theorem consume_error {i : Ty} {e : SerializationError} (known : input.serializer.IsBuiltIn)
    (failed : answerIn (input.consume i) turns = some (.error e)) :
    (∃ message, e = .read message) ∨ (∃ own, e = .decode own .codec) ∨
      ∃ given, e = .unsupported given .decode := by
  have consumed := (consumed_of_answer input turns failed).1
  unfold LazyValue.consumed at consumed
  split at consumed
  · exact .inr (Serializer.fromPayload_error known consumed)
  · rename_i broken unread
    cases consumed
    unfold LazyValue.payload at unread
    split at unread
    · cases unread
    · unfold LazyValue.gathered at unread
      split at unread
      · cases unread
      · cases unread; exact .inl ⟨_,rfl⟩

end Call

theorem dispatch_exact (h : Handler) (synchronous : Synchronous h) (service operation : String)
    (input : LazyValue) (options : StartOptions) (turns : List Turn) :
    let call := h.start service operation input options
    (∀ response, answerIn call turns = some response ↔
      Ends h service operation input options turns response) ∧
    startsIn call turns ≤ 1 ∧
    (startsIn call turns = 1 ↔ ∃ i o, ∃ function : Operation.Function i o, ∃ x,
      Invoked h service operation input turns function x) ∧
    (∀ i, (answerIn (input.consume i) turns).isSome ↔ input.waits < turns.length) ∧
    (∀ e, answerIn call turns ≠ some (.error (.handler (.operation e)))) ∧
    answerIn call turns ≠ some (.error .overloaded) ∧
    (input.serializer.IsBuiltIn → ∀ e, answerIn call turns = some (.error (.serialization e)) →
      (StartError.kind (.serialization e) = .internal ↔ ∃ message, e = .read message) ∧
      (StartError.kind (.serialization e) = .badRequest ↔ ∀ message, e ≠ .read message)) := by
  intro call
  have ends : ∀ response, answerIn call turns = some response ↔
      Ends h service operation input options turns response :=
    answer_ends input options turns synchronous
  obtain ⟨most,once⟩ : startsIn call turns ≤ 1 ∧ (startsIn call turns = 1 ↔ _) :=
    starts_exact input options turns synchronous
  refine ⟨ends,most,once,fun i => ?_,fun e answered => ?_,fun answered => ?_,fun known e answered => ?_⟩
  · rw [LazyValue.answer_consume]
    split <;> simp [*]
  · cases (ends _).mp answered
  · cases (ends _).mp answered
  · cases (ends _).mp answered with
    | unread found failed =>
        rcases consume_error input turns known failed with ⟨message,rfl⟩ | ⟨own,rfl⟩ | ⟨given,rfl⟩
        · simp [StartError.kind]
        · simp [StartError.kind,SerializationError.direction]
        · simp [StartError.kind,SerializationError.direction]

def front : Service :=
  ((Service.named "Desk").attempt (.sync "until" _ _ Readymade.untilCancelled)).attempt
    (.sync "nothing" _ _ Readymade.nothing)

def lobby : Handler := ⟨SortedMap.empty.insert "Desk" front⟩

def plainly : StartOptions := ⟨"first",.empty,none,.empty,[]⟩

def moment (cancelled : Bool) : Turn := ⟨fun _ => 0,cancelled,false,0,0,[]⟩

-- The text "a" in MessagePack, with a wait in the middle.
def slowly : LazyValue := .ofReader .msgPack .empty (.ofChunks [.data [0xa1],.pending,.data [0x61]])

theorem unknown_garbled_and_canceled_calls_answered :
    Synchronous lobby ∧
    answerIn (lobby.start "Attic" "nothing" slowly plainly) [moment false] =
      some (.error (.notFound ⟨.service,"Attic","nothing"⟩)) ∧
    answerIn (lobby.start "Desk" "nothing" slowly plainly) [moment false,moment false] =
      some (.error (.serialization (.decode applicationMsgPack .codec))) ∧
    answerIn (lobby.start "Desk" "until" slowly plainly) [moment false,moment false,moment true] =
      some (.ok (.failed ⟨.canceled,"a",[]⟩)) ∧
    startsIn (lobby.start "Desk" "until" slowly plainly) [moment false,moment false] = 1 := by
  have synchronous : Synchronous lobby := by
    have services : lobby.services.entries = [("Desk",front)] := rfl
    have operations : front.operations.held.entries =
        [("nothing",.sync "nothing" _ _ Readymade.nothing),
          ("until",.sync "until" _ _ Readymade.untilCancelled)] := rfl
    simp only [Synchronous,services,operations,List.forall_mem_cons,List.not_mem_nil,false_imp_iff,
      implies_true,and_true]
    exact ⟨⟨_,_,_,_,rfl⟩,⟨_,_,_,_,rfl⟩⟩
  have dispatched := dispatch_exact lobby synchronous
  refine ⟨synchronous,?_,?_,?_,?_⟩
  · exact ((dispatched "Attic" "nothing" slowly plainly [moment false]).1 _).mpr (.notFound (by simp) rfl)
  · exact ((dispatched "Desk" "nothing" slowly plainly _).1 _).mpr (.unread rfl rfl)
  · exact ((dispatched "Desk" "until" slowly plainly _).1 _).mpr (.failed ⟨⟨_,rfl⟩,rfl⟩ rfl)
  · exact (dispatched "Desk" "until" slowly plainly _).2.2.1.mpr ⟨_,_,_,"a",⟨_,rfl⟩,rfl⟩

end Switchboard.Dispatching
