import Switchboard.Proofs.BuiltIn
import Switchboard.Serializer.Custom

namespace Switchboard.Reading
open Serializer Routing

-- The way of a payload through composites to the codec that reads it. Nobody reads a payload
-- with nothing in it: the first composite on the way answers for itself.
inductive ReadBy (p : Payload) : Serializer → Codec → Prop where
  | leaf (codec : Codec) : ReadBy p (.leaf codec) codec
  | primary {primary : Serializer} {others : List Serializer} {codec : Codec}
      (untyped : p.contentType = none) (inhabited : p.isEmpty = false)
      (reads : ReadBy p primary codec) : ReadBy p (.composite primary others) codec
  | selected {primary member : Serializer} {others : List Serializer} {codec : Codec} {given : String}
      (typed : p.contentType = some given)
      (first : (primary :: others).find? (fun s => s.accepts given) = some member)
      (reads : ReadBy p member codec) : ReadBy p (.composite primary others) codec

section Way

variable {t : Ty} {p : Payload} {given : String} {s : Serializer} {codec : Codec}

theorem decodeFirst_selected (others : List Serializer) :
    decodeFirst t p given others =
      match others.find? (fun s => s.accepts given) with
      | some member => member.decode t p
      | none => .error (.unsupported given .decode) := by
  induction others with
  | nil => rfl
  | cons s rest ih =>
      rw [decodeFirst,List.find?_cons]
      cases s.accepts given with
      | true => rfl
      | false => exact ih

theorem decode_selected (typed : p.contentType = some given) (primary : Serializer)
    (others : List Serializer) :
    decode t p (.composite primary others) =
      match (primary :: others).find? (fun s => s.accepts given) with
      | some member => member.decode t p
      | none => .error (.unsupported given .decode) := by
  rw [← decodeFirst_selected,decode,typed,decodeFirst]

theorem decode_readBy (reads : ReadBy p s codec) : s.decode t p = codec.decode t p := by
  induction reads with
  | leaf codec => rw [decode]
  | primary untyped inhabited _ ih => simpa [decode,untyped,inhabited] using ih
  | selected typed first _ ih => rw [decode_selected typed,first]; exact ih

theorem contentType_readBy (reads : ReadBy p s codec) :
    p.contentType.getD s.contentType = p.contentType.getD codec.contentType := by
  induction reads with
  | leaf codec => rfl
  | primary _ _ _ ih => exact ih
  | selected typed => rw [typed]; rfl

theorem fromPayload_readBy (reads : ReadBy p s codec) :
    s.fromPayload t p = (Serializer.leaf codec).fromPayload t p := by
  rw [fromPayload,fromPayload,decode_readBy reads,decode_readBy (.leaf codec),contentType_readBy reads]
  rfl

theorem readBy_unique {other : Codec} (reads : ReadBy p s codec) (rival : ReadBy p s other) :
    other = codec := by
  induction reads with
  | leaf codec => cases rival; rfl
  | primary untyped _ _ ih =>
      cases rival with
      | primary _ _ rival => exact ih rival
      | selected typed => cases untyped.symm.trans typed
  | selected typed first _ ih =>
      cases rival with
      | primary untyped => cases untyped.symm.trans typed
      | selected same again rival =>
          cases typed.symm.trans same
          cases first.symm.trans again
          exact ih rival

theorem refused_exact :
    s.accepts given = false ↔ (leaves s).find? (fun codec => codec.accepts given) = none := by
  rw [accepts_leaves]
  simp [List.any_eq_false]

theorem found_accepted (found : (leaves s).find? (fun codec => codec.accepts given) = some codec) :
    codec ∈ leaves s ∧ codec.accepts given = true ∧ s.accepts given = true := by
  have member := List.mem_of_find?_eq_some found
  have accepted : codec.accepts given = true :=
    List.find?_some (p := fun codec : Codec => codec.accepts given) found
  rw [accepts_leaves]
  exact ⟨member,accepted,List.any_eq_true.mpr ⟨codec,member,accepted⟩⟩

theorem found_append {more : List Codec}
    (found : (leaves s ++ more).find? (fun codec => codec.accepts given) = some codec) :
    (s.accepts given = true ∧ (leaves s).find? (fun codec => codec.accepts given) = some codec) ∨
      (s.accepts given = false ∧ more.find? (fun codec => codec.accepts given) = some codec) := by
  rw [List.find?_append] at found
  cases inside : (leaves s).find? (fun codec => codec.accepts given) with
  | some first =>
      rw [inside,Option.some_or] at found
      exact .inl ⟨(found_accepted inside).2.2,found⟩
  | none =>
      rw [inside,Option.none_or] at found
      exact .inr ⟨refused_exact.mpr inside,found⟩

-- Composites choose among their members and not among leaves, and still end at the first leaf
-- that accepts.
mutual
theorem readBy_first (typed : p.contentType = some given) : (s : Serializer) →
    (leaves s).find? (fun codec => codec.accepts given) = some codec → ReadBy p s codec
  | .leaf own,found => by
      have same : codec = own := by simpa [leaves] using List.mem_of_find?_eq_some found
      subst same
      exact .leaf codec
  | .composite primary others,found => by
      rw [leaves] at found
      rcases found_append found with ⟨accepted,inside⟩ | ⟨refused,beyond⟩
      · exact .selected typed (List.find?_cons_of_pos accepted) (readBy_first typed primary inside)
      · obtain ⟨member,first,reads⟩ := readBy_others typed others beyond
        exact .selected typed ((List.find?_cons_of_neg (by simp [refused])).trans first) reads

theorem readBy_others (typed : p.contentType = some given) : (others : List Serializer) →
    (allLeaves others).find? (fun codec => codec.accepts given) = some codec →
      ∃ member, others.find? (fun s => s.accepts given) = some member ∧ ReadBy p member codec
  | [],found => by cases found
  | s :: rest,found => by
      rw [allLeaves] at found
      rcases found_append found with ⟨accepted,inside⟩ | ⟨refused,beyond⟩
      · exact ⟨s,List.find?_cons_of_pos accepted,readBy_first typed s inside⟩
      · obtain ⟨member,first,reads⟩ := readBy_others typed rest beyond
        exact ⟨member,(List.find?_cons_of_neg (by simp [refused])).trans first,reads⟩
end

theorem readBy_leftmost (untyped : p.contentType = none) (inhabited : p.isEmpty = false)
    (s : Serializer) : ReadBy p s (leftmost s) := by
  induction s using leftmost.induct with
  | case1 codec => exact .leaf codec
  | case2 primary others ih => exact .primary untyped inhabited ih

-- What becomes of a payload: its type is refused, or one leaf reads it that does not refuse it,
-- or there is nothing to read and a composite has to say so.
theorem reading_cases (p : Payload) (s : Serializer) :
    (∃ given, p.contentType = some given ∧ s.accepts given = false) ∨
    (∃ codec ∈ leaves s, ReadBy p s codec ∧
      ∀ given, p.contentType = some given → codec.accepts given = true ∧ s.accepts given = true) ∨
    (p.contentType = none ∧ p.isEmpty = true ∧ ∃ primary others, s = .composite primary others) := by
  cases type : p.contentType with
  | some given =>
      cases found : (leaves s).find? (fun codec => codec.accepts given) with
      | none => exact .inl ⟨given,rfl,refused_exact.mpr found⟩
      | some codec =>
          obtain ⟨member,accepted⟩ := found_accepted found
          refine .inr (.inl ⟨codec,member,readBy_first type s found,?_⟩)
          rintro _ ⟨rfl⟩
          exact accepted
  | none =>
      cases empty : p.isEmpty with
      | false =>
          obtain ⟨rest,codecs⟩ := leaves_cons s
          exact .inr (.inl ⟨leftmost s,by simp [codecs],readBy_leftmost type empty s,by simp⟩)
      | true =>
          cases s with
          | leaf codec => exact .inr (.inl ⟨codec,by simp [leaves],.leaf codec,by simp⟩)
          | composite primary others => exact .inr (.inr ⟨rfl,rfl,primary,others,rfl⟩)

end Way

-- What a codec writes says whose it is, and the codec takes it back.
structure SelfTagging (codec : Codec) : Prop where
  tagged : ∀ t v p, codec.encode t v = .ok p → p.contentType = some codec.contentType
  accepted : codec.accepts codec.contentType = true

theorem wrapped_tagged {own : String} {encoded : Option (List UInt8)} {p : Payload}
    (written : Codec.wrapped own encoded = .ok p) : p.contentType = some own := by
  obtain ⟨body,_,rfl⟩ := wrapped_ok.mp written
  rfl

theorem builtIn_selfTagging {codec : Codec} (known : codec = .json ∨ codec = .msgPack) :
    SelfTagging codec := by
  rcases known with rfl | rfl
  · exact ⟨fun _ _ _ written => wrapped_tagged written,beq_self_eq_true _⟩
  · exact ⟨fun _ _ _ written => wrapped_tagged written,beq_self_eq_true _⟩

theorem own_output_exact :
    (∀ codec : Codec, codec = .json ∨ codec = .msgPack → SelfTagging codec) ∧
    ∀ s : Serializer, SelfTagging (leftmost s) → ∀ t v p, s.toPayload t v = .ok p →
      p.contentType = some s.contentType ∧
      s.accepts s.contentType = true ∧
      (∀ codec, ReadBy p s codec ↔ codec = leftmost s) ∧
      ∀ u, s.fromPayload u p = (Serializer.leaf (leftmost s)).fromPayload u p := by
  refine ⟨fun codec known => builtIn_selfTagging known,fun s own t v p written => ?_⟩
  rw [toPayload,encode_leftmost] at written
  have typed := own.tagged t v p written
  obtain ⟨rest,codecs⟩ := leaves_cons s
  have found : (leaves s).find? (fun codec => codec.accepts (leftmost s).contentType) =
      some (leftmost s) := by
    rw [codecs]
    exact List.find?_cons_of_pos own.accepted
  have reads : ReadBy p s (leftmost s) := readBy_first typed s found
  rw [contentType_leftmost,accepts_leaves,codecs,List.any_cons,own.accepted]
  refine ⟨typed,rfl,fun codec => ⟨fun rival => readBy_unique reads rival,?_⟩,fun u => ?_⟩
  · rintro rfl
    exact reads
  · exact fromPayload_readBy reads

-- Its payloads are empty, and it stands beside a codec that takes everything.
def hushed : Serializer :=
  .composite (.composite (.leaf (.custom "Text/Quiet; v=1" .silent)) [.leaf (.custom "*/*" .greedy)])
    [.json,.standard]

theorem silent_codec_output_read_as_no_value :
    SelfTagging (leftmost hushed) ∧
    hushed.toPayload .bool true = .ok (.typed "Text/Quiet; v=1" []) ∧
    ReadBy (.typed "Text/Quiet; v=1" []) hushed (.custom "Text/Quiet; v=1" .silent) ∧
    hushed.fromPayload .unit (.typed "Text/Quiet; v=1" []) =
      .error (.decode "Text/Quiet; v=1" (.text "serializer produced no value")) := by
  have own : SelfTagging (leftmost hushed) := by
    refine ⟨fun t v p written => ?_,beq_self_eq_true _⟩
    cases written
    rfl
  obtain ⟨_,_,reads,same⟩ := own_output_exact.2 hushed own .bool true (.typed "Text/Quiet; v=1" []) rfl
  exact ⟨own,rfl,(reads _).mpr rfl,same .unit⟩

section Refusal

variable {t : Ty} {p : Payload} {s : Serializer} {codec : Codec}

theorem checked_accepted {own : String} {decoded : Option t.Value} {e : SerializationError}
    (accepted : ∀ given, p.contentType = some given → Codec.sameEssence own given = true)
    (failed : Codec.checked own t p decoded = .error e) : e = .decode own .codec := by
  unfold Codec.checked at failed
  cases type : p.contentType with
  | none =>
      cases decoded with
      | none => simpa [type,eq_comm] using failed
      | some v => simp [type] at failed
  | some given =>
      cases decoded with
      | none => simpa [type,accepted given type,eq_comm] using failed
      | some v => simp [type,accepted given type] at failed

theorem codec_accepted {e : SerializationError} (known : codec = .json ∨ codec = .msgPack)
    (accepted : ∀ given, p.contentType = some given → codec.accepts given = true)
    (failed : codec.decode t p = .error e) : e = .decode codec.contentType .codec := by
  rcases known with rfl | rfl
  · exact checked_accepted accepted failed
  · exact checked_accepted accepted failed

theorem codec_refused {given : String} (known : codec = .json ∨ codec = .msgPack)
    (typed : p.contentType = some given) (refused : codec.accepts given = false) :
    codec.decode t p = .error (.unsupported given .decode) := by
  rcases known with rfl | rfl
  · have other : Codec.sameEssence applicationJson given = false := refused
    simp [Codec.json,Codec.checked,typed,other]
  · have other : Codec.sameEssence applicationMsgPack given = false := refused
    simp [Codec.msgPack,Codec.checked,typed,other]

theorem decode_refused {given : String} (known : s.IsBuiltIn) (typed : p.contentType = some given)
    (refused : s.accepts given = false) : s.decode t p = .error (.unsupported given .decode) := by
  cases s with
  | leaf codec =>
      rw [decode]
      exact codec_refused (known codec (by simp [leaves])) typed (by simpa [accepts] using refused)
  | composite primary others =>
      rw [decode_typed typed _ (fun codec same => by cases same),firstAccepting,refused_exact.mp refused]

theorem decode_nothing {e : SerializationError} {primary : Serializer} {others : List Serializer}
    (untyped : p.contentType = none) (empty : p.isEmpty = true)
    (failed : decode t p (.composite primary others) = .error e) : e = .decode primary.contentType .codec := by
  simp only [decode,untyped,empty,if_true,ofNothing] at failed
  split at failed
  · cases failed
  · cases failed; rfl

theorem fromPayload_failed (known : s.IsBuiltIn) {e : SerializationError} :
    s.fromPayload t p = .error e ↔ s.decode t p = .error e := by
  have plain : Plain (s.decode t p) := decode_plain known
  unfold fromPayload
  generalize s.decode t p = result at plain
  cases plain with
  | value v => simp
  | malformed own => simp
  | unsupported given => simp

end Refusal

theorem refusal_exact (s : Serializer) (known : s.IsBuiltIn) (p : Payload) :
    (∀ t given direction, s.fromPayload t p = .error (.unsupported given direction) ↔
      p.contentType = some given ∧ s.accepts given = false ∧ direction = .decode) ∧
    ((∀ given, p.contentType = some given → s.accepts given = true) →
      (∃ codec ∈ leaves s, ReadBy p s codec ∧
        ∀ t, s.fromPayload t p = (Serializer.leaf codec).fromPayload t p ∧
          ∀ e, s.fromPayload t p = .error e → e = .decode codec.contentType .codec) ∨
      (p.contentType = none ∧ p.isEmpty = true ∧ (∃ primary others, s = .composite primary others) ∧
        ∀ t e, s.fromPayload t p = .error e → e = .decode s.contentType .codec)) := by
  rcases reading_cases p s with ⟨given,typed,refused⟩ | ⟨codec,member,reads,accepted⟩ |
    ⟨untyped,empty,primary,others,rfl⟩
  · have failed : ∀ t, s.fromPayload t p = .error (.unsupported given .decode) :=
      fun t => (fromPayload_failed known).mpr (decode_refused known typed refused)
    refine ⟨fun t other direction => ?_,fun all => absurd (all given typed) (by simp [refused])⟩
    rw [failed t]
    constructor
    · rintro ⟨⟩
      exact ⟨typed,refused,rfl⟩
    · rintro ⟨same,_,rfl⟩
      cases typed.symm.trans same
      rfl
  · have failure : ∀ t e, s.fromPayload t p = .error e → e = .decode codec.contentType .codec := by
      intro t e failed
      rw [fromPayload_failed known,decode_readBy reads] at failed
      exact codec_accepted (known codec member) (fun given typed => (accepted given typed).1) failed
    refine ⟨fun t given direction => ⟨fun failed => ?_,?_⟩,fun _ => .inl ⟨codec,member,reads,fun t => ?_⟩⟩
    · cases failure t _ failed
    · rintro ⟨typed,refused,_⟩
      cases refused.symm.trans (accepted given typed).2
    · exact ⟨fromPayload_readBy reads,failure t⟩
  · have failure : ∀ t e, fromPayload (.composite primary others) t p = .error e →
        e = .decode primary.contentType .codec := by
      intro t e failed
      exact decode_nothing untyped empty ((fromPayload_failed known).mp failed)
    refine ⟨fun t given direction => ⟨fun failed => ?_,?_⟩,fun _ => .inr ⟨untyped,empty,⟨_,_,rfl⟩,failure⟩⟩
    · cases failure t _ failed
    · rintro ⟨typed,_⟩
      cases untyped.symm.trans typed

def layered : Serializer := .composite (.composite .msgPack [.json]) [.json,.standard]

theorem foreign_type_unsupported_broken_body_undecodable :
    layered.IsBuiltIn ∧
    layered.fromPayload .bool (.typed "Text/Plain; q=1" []) = .error (.unsupported "Text/Plain; q=1" .decode) ∧
    ReadBy (.typed " APPLICATION/json ;q" [0x74]) layered .json ∧
    layered.fromPayload .bool (.typed " APPLICATION/json ;q" [0x74]) = .error (.decode applicationJson .codec) ∧
    layered.fromPayload .bool .empty = .error (.decode applicationMsgPack .codec) := by
  have known : layered.IsBuiltIn := by
    simp [IsBuiltIn,layered,leaves,allLeaves,Serializer.json,Serializer.msgPack,Serializer.standard,alone,adding]
  have exact := refusal_exact layered known
  have reads : ReadBy (.typed " APPLICATION/json ;q" [0x74]) layered .json :=
    .selected rfl rfl (.selected rfl rfl (.leaf _))
  refine ⟨known,?_,reads,?_,?_⟩
  · exact ((exact _).1 .bool "Text/Plain; q=1" .decode).mpr ⟨rfl,by decide,rfl⟩
  · rcases (exact (.typed " APPLICATION/json ;q" [0x74])).2 (by rintro _ ⟨⟩; decide) with
      ⟨codec,_,rival,read⟩ | ⟨untyped,_⟩
    · cases readBy_unique reads rival
      exact (read .bool).1
    · cases untyped
  · rfl

end Switchboard.Reading
