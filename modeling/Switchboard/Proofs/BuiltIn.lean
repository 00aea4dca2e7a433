import Switchboard.Proofs.Routing
import Switchboard.Serializer.Builtin

namespace Switchboard.Serializer
open Routing

def IsBuiltIn (s : Serializer) : Prop := ∀ codec ∈ leaves s, codec = .json ∨ codec = .msgPack

-- A value, or one of two ways to do without: the body is no such value, or nobody reads its type.
inductive Plain {α : Type} : Except SerializationError (Option α) → Prop where
  | value (v : α) : Plain (.ok (some v))
  | malformed (own : String) : Plain (.error (.decode own .codec))
  | unsupported (given : String) : Plain (.error (.unsupported given .decode))

variable {t : Ty} {p : Payload}

theorem checked_plain (own : String) (decoded : Option t.Value) : Plain (Codec.checked own t p decoded) := by
  unfold Codec.checked
  split
  · split
    · cases decoded with
      | none => exact .malformed own
      | some v => exact .value v
    · exact .unsupported _
  · cases decoded with
    | none => exact .malformed own
    | some v => exact .value v

theorem codec_plain {codec : Codec} (known : codec = .json ∨ codec = .msgPack) :
    Plain (codec.decode t p) := by
  rcases known with rfl | rfl
  · exact checked_plain applicationJson _
  · exact checked_plain applicationMsgPack _

theorem firstAccepting_plain {codecs : List Codec} (known : ∀ codec ∈ codecs, codec = .json ∨ codec = .msgPack)
    (given : String) : Plain (firstAccepting t p given codecs) := by
  unfold firstAccepting
  split
  · rename_i codec found
    exact codec_plain (known codec (List.mem_of_find?_eq_some found))
  · exact .unsupported given

theorem decode_plain {s : Serializer} (known : s.IsBuiltIn) : Plain (s.decode t p) := by
  cases s with
  | leaf codec =>
      rw [decode]
      exact codec_plain (known codec (by simp [leaves]))
  | composite primary others =>
      obtain ⟨rest,codecs⟩ := leaves_cons (.composite primary others)
      have all : ∀ codec ∈ leftmost (.composite primary others) :: rest,
          codec = .json ∨ codec = .msgPack := codecs ▸ known
      rw [decode_composite t p primary others codecs,routed]
      split
      · split
        · unfold ofNothing
          split
          · exact .value _
          · exact .malformed _
        · exact codec_plain (all _ List.mem_cons_self)
      · exact firstAccepting_plain all _

theorem fromPayload_error {s : Serializer} (known : s.IsBuiltIn) {e : SerializationError}
    (failed : s.fromPayload t p = .error e) :
    (∃ own, e = .decode own .codec) ∨ ∃ given, e = .unsupported given .decode := by
  have plain : Plain (s.decode t p) := decode_plain known
  unfold fromPayload at failed
  generalize s.decode t p = result at plain failed
  cases plain with
  | value v => cases failed
  | malformed own => cases failed; exact .inl ⟨own,rfl⟩
  | unsupported given => cases failed; exact .inr ⟨given,rfl⟩

theorem wrapped_ok {own : String} {encoded : Option (List UInt8)} :
    Codec.wrapped own encoded = .ok p ↔ ∃ body, encoded = some body ∧ p = .typed own body := by
  cases encoded with
  | none => simp [Codec.wrapped]
  | some body => simp [Codec.wrapped,eq_comm]

theorem wrapped_exists {own : String} {encoded : Option (List UInt8)} :
    (∃ p, Codec.wrapped own encoded = .ok p) ↔ encoded.isSome = true := by
  cases encoded <;> simp [Codec.wrapped]

theorem standard_json (body : List UInt8) :
    standard.decode t (.typed applicationJson body) = json.decode t (.typed applicationJson body) := by
  have accepted : json.accepts applicationJson = true := by decide
  simp [standard,alone,adding,decode,Payload.typed,accepted]

theorem standard_msgPack (body : List UInt8) :
    standard.decode t (.typed applicationMsgPack body) = msgPack.decode t (.typed applicationMsgPack body) := by
  have refused : json.accepts applicationMsgPack = false := by decide
  have accepted : msgPack.accepts applicationMsgPack = true := by decide
  simp [standard,alone,adding,decode,decodeFirst,Payload.typed,refused,accepted]

-- What a format answers to a body of its own type.
def answered (own : String) (decoded : Option t.Value) : Except SerializationError t.Value :=
  match decoded with
  | some v => .ok v
  | none => .error (.decode own .codec)

-- A whole number that is spelled and does not fit the width is as malformed as one that is not spelled.
theorem answered_integer {k : IntKind} {own : String} {decoded : Option (Bounded k)} {spelled : Int → Prop}
    (reads : ∀ n : Bounded k, decoded = some n ↔ spelled n.val) :
    (∀ n : Int, (∃ v : Bounded k, answered (t := .int k) own decoded = .ok v ∧ v.val = n) ↔
      spelled n ∧ k.Holds n) ∧
    (answered (t := .int k) own decoded = .error (.decode own .codec) ↔ ∀ n, k.Holds n → ¬ spelled n) := by
  cases decoded with
  | some m =>
      have written : spelled m.val := (reads m).mp rfl
      refine ⟨?_,?_,?_⟩
      · intro n
        constructor
        · rintro ⟨v,same,rfl⟩
          cases same
          exact ⟨written,m.held⟩
        · rintro ⟨also,held⟩
          cases (reads ⟨n,held⟩).mpr also
          exact ⟨⟨n,held⟩,rfl,rfl⟩
      · intro failed
        cases failed
      · intro unspelled
        exact absurd written (unspelled m.val m.held)
  | none =>
      have unspelled : ∀ n, k.Holds n → ¬ spelled n := by
        intro n held written
        cases (reads ⟨n,held⟩).mpr written
      refine ⟨?_,fun _ => unspelled,fun _ => rfl⟩
      intro n
      constructor
      · rintro ⟨v,same,_⟩
        cases same
      · rintro ⟨written,held⟩
        exact absurd written (unspelled n held)

theorem fromPayload_taken {s : Serializer} {own : String} {decoded : Option t.Value}
    (asked : s.decode t p = Codec.checked own t p decoded)
    (taken : ∀ given, p.contentType = some given → Codec.sameEssence own given = true) :
    s.fromPayload t p = answered own decoded := by
  rw [fromPayload,asked]
  cases type : p.contentType with
  | none => cases decoded <;> simp [Codec.checked,type,answered]
  | some given => cases decoded <;> simp [Codec.checked,type,taken given type,answered]

theorem fromPayload_ok {s : Serializer} {own : String} {decoded : Option t.Value} {v : t.Value}
    (asked : s.decode t p = Codec.checked own t p decoded) :
    s.fromPayload t p = .ok v ↔
      (∀ given, p.contentType = some given → Codec.sameEssence own given = true) ∧ decoded = some v := by
  constructor
  · intro read
    have taken : ∀ given, p.contentType = some given → Codec.sameEssence own given = true := by
      intro given typed
      cases same : Codec.sameEssence own given with
      | true => rfl
      | false => simp [fromPayload,asked,Codec.checked,typed,same] at read
    rw [fromPayload_taken asked taken] at read
    cases decoded with
    | none => cases read
    | some w => cases read; exact ⟨taken,rfl⟩
  · rintro ⟨taken,rfl⟩
    exact fromPayload_taken asked taken

theorem fromPayload_own {s : Serializer} {own : String} {body : List UInt8} {decoded : Option t.Value}
    (asked : s.decode t (.typed own body) = Codec.checked own t (.typed own body) decoded) :
    s.fromPayload t (.typed own body) = answered own decoded := by
  apply fromPayload_taken asked
  rintro _ ⟨⟩
  exact beq_self_eq_true _

theorem json_taken (taken : ∀ given, p.contentType = some given → json.accepts given = true) :
    json.fromPayload t p = answered applicationJson (Json.decode t p.body) := fromPayload_taken rfl taken

theorem msgPack_taken (taken : ∀ given, p.contentType = some given → msgPack.accepts given = true) :
    msgPack.fromPayload t p = answered applicationMsgPack (MsgPack.decode t p.body) :=
  fromPayload_taken rfl taken

theorem json_ok {v : t.Value} : json.fromPayload t p = .ok v ↔
    (∀ given, p.contentType = some given → json.accepts given = true) ∧ Json.decode t p.body = some v :=
  fromPayload_ok rfl

theorem msgPack_ok {v : t.Value} : msgPack.fromPayload t p = .ok v ↔
    (∀ given, p.contentType = some given → msgPack.accepts given = true) ∧ MsgPack.decode t p.body = some v :=
  fromPayload_ok rfl

theorem fromPayload_json {s : Serializer} (reads : s = json ∨ s = standard) (body : List UInt8) :
    s.fromPayload t (.typed applicationJson body) = answered applicationJson (Json.decode t body) := by
  apply fromPayload_own
  rcases reads with rfl | rfl
  · rfl
  · exact standard_json body

theorem fromPayload_msgPack {s : Serializer} (reads : s = msgPack ∨ s = standard) (body : List UInt8) :
    s.fromPayload t (.typed applicationMsgPack body) = answered applicationMsgPack (MsgPack.decode t body) := by
  apply fromPayload_own
  rcases reads with rfl | rfl
  · rfl
  · exact standard_msgPack body

end Switchboard.Serializer
