import Switchboard.Proofs.Reading
import Switchboard.Serializer.Custom

namespace Switchboard.Extension
open Serializer Reading

-- An untyped payload needs nobody to accept it.
def Routed (s : Serializer) (p : Payload) : Prop := ∀ given, p.contentType = some given → s.accepts given = true

-- What the smaller one does not take goes to the first of the added ones that does.
structure Extends (smaller : Serializer) (added : List Serializer) (larger : Serializer) : Prop where
  contentType : larger.contentType = smaller.contentType
  encode : ∀ t v, larger.encode t v = smaller.encode t v
  accepts : ∀ given, larger.accepts given = true ↔
    smaller.accepts given = true ∨ ∃ s ∈ added, s.accepts given = true
  routed : ∀ t p, Routed smaller p → larger.decode t p = smaller.decode t p
  handedOn : ∀ t p given s, p.contentType = some given → smaller.accepts given = false →
    added.find? (fun s => s.accepts given) = some s → larger.decode t p = s.decode t p
  refused : ∀ t p given, p.contentType = some given → smaller.accepts given = false →
    added.find? (fun s => s.accepts given) = none → larger.decode t p = smaller.decode t p

section Growth

variable {smaller middle larger : Serializer} {added more : List Serializer} {t : Ty} {p : Payload} {given : String}

theorem routed_typed {s : Serializer} (typed : p.contentType = some given) (accepted : s.accepts given = true) :
    Routed s p := by
  intro other same
  cases typed.symm.trans same
  exact accepted

theorem extends_refl (s : Serializer) : Extends s [] s := by
  refine ⟨rfl,fun _ _ => rfl,by simp,fun _ _ _ => rfl,?_,fun _ _ _ _ _ _ => rfl⟩
  intro _ _ _ _ _ _ found
  cases found

theorem extends_routed (first : Extends smaller added middle) (routed : Routed smaller p) : Routed middle p := by
  intro given typed
  exact (first.accepts given).mpr (.inl (routed given typed))

theorem extends_refused (first : Extends smaller added middle) (refused : smaller.accepts given = false)
    (absent : added.find? (fun s => s.accepts given) = none) : middle.accepts given = false := by
  rw [Bool.eq_false_iff,ne_eq,first.accepts,refused]
  simpa using absent

theorem extends_taken (first : Extends smaller added middle) {s : Serializer}
    (found : added.find? (fun s => s.accepts given) = some s) : middle.accepts given = true := by
  have accepted : s.accepts given = true := List.find?_some (p := fun s : Serializer => s.accepts given) found
  exact (first.accepts given).mpr (.inr ⟨s,List.mem_of_find?_eq_some found,accepted⟩)

-- Whoever is added first takes what it accepts, and nobody added later is asked about that.
theorem extends_trans (first : Extends smaller added middle) (second : Extends middle more larger) :
    Extends smaller (added ++ more) larger := by
  refine ⟨second.contentType.trans first.contentType,fun t v => (second.encode t v).trans (first.encode t v),?_,?_,?_,?_⟩
  · intro given
    rw [second.accepts,first.accepts]
    simp [or_assoc,or_and_right,exists_or]
  · intro t p routed
    rw [second.routed t p (extends_routed first routed)]
    exact first.routed t p routed
  · intro t p given s typed refused found
    rw [List.find?_append] at found
    cases early : added.find? (fun s => s.accepts given) with
    | some taker =>
        rw [early,Option.some_or] at found
        cases found
        rw [second.routed t p (routed_typed typed (extends_taken first early))]
        exact first.handedOn t p given s typed refused early
    | none =>
        rw [early,Option.none_or] at found
        exact second.handedOn t p given s typed (extends_refused first refused early) found
  · intro t p given typed refused absent
    rw [List.find?_append,Option.or_eq_none_iff] at absent
    rw [second.refused t p given typed (extends_refused first refused absent.1) absent.2]
    exact first.refused t p given typed refused absent.1

theorem extends_read (grows : Extends smaller added larger) (routed : Routed smaller p) :
    larger.fromPayload t p = smaller.fromPayload t p := by
  rw [fromPayload,fromPayload,grows.routed t p routed,grows.contentType]

theorem fromPayload_typed (typed : p.contentType = some given) (same : larger.decode t p = smaller.decode t p) :
    larger.fromPayload t p = smaller.fromPayload t p := by
  rw [fromPayload,fromPayload,same,typed]
  rfl

theorem extends_unread (grows : Extends smaller added larger) (typed : p.contentType = some given)
    (refused : smaller.accepts given = false) :
    larger.fromPayload t p =
      ((added.find? (fun s => s.accepts given)).getD smaller).fromPayload t p := by
  apply fromPayload_typed typed
  cases found : added.find? (fun s => s.accepts given) with
  | some s => exact grows.handedOn t p given s typed refused found
  | none => exact grows.refused t p given typed refused found

end Growth

section Adding

variable (primary : Serializer) (others : List Serializer)

theorem anyAccepts_any (given : String) (members : List Serializer) :
    anyAccepts given members = members.any (fun s => s.accepts given) := by
  induction members with
  | nil => rfl
  | cons s rest ih => rw [anyAccepts,List.any_cons,ih]

theorem accepts_any (given : String) :
    (Serializer.composite primary others).accepts given = (primary :: others).any (fun s => s.accepts given) := by
  rw [accepts,anyAccepts_any,List.any_cons]

theorem unselected_exact (given : String) :
    (Serializer.composite primary others).accepts given = false ↔
      (primary :: others).find? (fun s => s.accepts given) = none := by
  rw [accepts_any]
  simp

theorem refused_unsupported {t : Ty} {p : Payload} {given : String} (typed : p.contentType = some given)
    (refused : (Serializer.composite primary others).accepts given = false) :
    (Serializer.composite primary others).decode t p = .error (.unsupported given .decode) := by
  rw [decode_selected typed,(unselected_exact primary others given).mp refused]

theorem decode_adding {t : Ty} {p : Payload} {given : String} (typed : p.contentType = some given) (s : Serializer) :
    ((Serializer.composite primary others).adding s).decode t p =
      if (Serializer.composite primary others).accepts given then (Serializer.composite primary others).decode t p
      else if s.accepts given then s.decode t p
      else .error (.unsupported given .decode) := by
  rw [adding,decode_selected typed,decode_selected typed,← List.cons_append,List.find?_append]
  cases found : (primary :: others).find? (fun s => s.accepts given) with
  | some member =>
      have accepted : (Serializer.composite primary others).accepts given = true := by
        rw [← Bool.not_eq_false,unselected_exact,found]
        simp
      rw [if_pos accepted]
      rfl
  | none =>
      have refused := (unselected_exact primary others given).mpr found
      rw [if_neg (by simp [refused]),Option.none_or,List.find?_singleton]
      by_cases accepted : s.accepts given = true
      · simp [accepted]
      · simp [accepted]

theorem adding_extends (s : Serializer) :
    Extends (.composite primary others) [s] ((Serializer.composite primary others).adding s) := by
  refine ⟨rfl,fun _ _ => rfl,?_,?_,?_,?_⟩
  · intro given
    rw [adding,accepts_any,accepts_any,← List.cons_append,List.any_append]
    simp
  · intro t p routed
    cases type : p.contentType with
    | none => simp [adding,decode,type]
    | some given => rw [decode_adding primary others type,if_pos (routed given type)]
  · intro t p given taker typed refused found
    have same : s.accepts given = true ∧ s = taker := by simpa [List.find?_singleton] using found
    rw [decode_adding primary others typed,refused,← same.2]
    simp [same.1]
  · intro t p given typed refused absent
    have unaccepted : s.accepts given = false := by simpa using absent
    rw [decode_adding primary others typed,refused,unaccepted,refused_unsupported primary others typed refused]
    simp

theorem grown_extends (added : List Serializer) :
    Extends (.composite primary others) added (added.foldl adding (.composite primary others)) := by
  induction added generalizing others with
  | nil => exact extends_refl _
  | cons s rest ih => exact extends_trans (adding_extends primary others s) (ih (others ++ [s]))

end Adding

theorem extension_exact (primary : Serializer) (others : List Serializer) :
    let c : Serializer := .composite primary others
    (∀ s : Serializer,
      (c.adding s).contentType = c.contentType ∧
      (∀ t v, (c.adding s).toPayload t v = c.toPayload t v) ∧
      (∀ given, (c.adding s).accepts given = true ↔ c.accepts given = true ∨ s.accepts given = true) ∧
      ∀ t p,
        (p.contentType = none → (c.adding s).fromPayload t p = c.fromPayload t p) ∧
        ∀ given, p.contentType = some given →
          (c.accepts given = true → (c.adding s).fromPayload t p = c.fromPayload t p) ∧
          (c.accepts given = false → s.accepts given = true →
            (c.adding s).decode t p = s.decode t p ∧ (c.adding s).fromPayload t p = s.fromPayload t p) ∧
          (c.accepts given = false → s.accepts given = false →
            (c.adding s).fromPayload t p = c.fromPayload t p ∧
            c.fromPayload t p = .error (.unsupported given .decode))) ∧
    ∀ added : List Serializer,
      (added.foldl adding c).contentType = c.contentType ∧
      (∀ t v, (added.foldl adding c).toPayload t v = c.toPayload t v) ∧
      (∀ given, (added.foldl adding c).accepts given = true ↔
        c.accepts given = true ∨ ∃ s ∈ added, s.accepts given = true) ∧
      ∀ t p,
        ((∀ given, p.contentType = some given → c.accepts given = true) →
          (added.foldl adding c).fromPayload t p = c.fromPayload t p) ∧
        ∀ given, p.contentType = some given → c.accepts given = false →
          (added.foldl adding c).fromPayload t p =
            ((added.find? (fun s => s.accepts given)).getD c).fromPayload t p := by
  intro c
  refine ⟨?_,?_⟩
  · intro s
    have grows : Extends c [s] (c.adding s) := adding_extends primary others s
    refine ⟨grows.contentType,grows.encode,by simpa using grows.accepts,?_⟩
    intro t p
    refine ⟨?_,?_⟩
    · intro untyped
      exact extends_read grows (by simp [Routed,untyped])
    · intro given typed
      refine ⟨?_,?_,?_⟩
      · intro accepted
        exact extends_read grows (routed_typed typed accepted)
      · intro refused taken
        have handed := grows.handedOn t p given s typed refused (by simp [taken])
        exact ⟨handed,fromPayload_typed typed handed⟩
      · intro refused unaccepted
        refine ⟨fromPayload_typed typed (grows.refused t p given typed refused (by simp [unaccepted])),?_⟩
        rw [fromPayload,refused_unsupported primary others typed refused]
  · intro added
    have grows : Extends c added (added.foldl adding c) := grown_extends primary others added
    refine ⟨grows.contentType,grows.encode,grows.accepts,?_⟩
    intro t p
    refine ⟨extends_read grows,?_⟩
    intro given typed refused
    exact extends_unread grows typed refused

def greedy : Serializer := .leaf (.custom "*/*" .greedy)

-- It takes everything, and JSON still goes to whom it went before.
theorem greedy_member_asked_last :
    let c : Serializer := .composite .standard [.leaf (.custom "text/quiet" .silent)]
    (greedy.accepts applicationJson = true ∧ c.accepts applicationJson = true ∧
      (c.adding greedy).fromPayload .bool (.typed applicationJson [0x74]) =
        c.fromPayload .bool (.typed applicationJson [0x74])) ∧
    (c.accepts "image/png" = false ∧ greedy.accepts "image/png" = true ∧
      (c.adding greedy).fromPayload .bool (.typed "image/png" [0x74,0x72,0x75,0x65]) = .ok true) ∧
    (c.accepts "text/quiet; v=1" = true ∧
      ([greedy,c].foldl adding c).fromPayload .unit (.typed "text/quiet; v=1" []) =
        .error (.decode "text/quiet; v=1" (.text "serializer produced no value"))) := by
  intro c
  obtain ⟨one,many⟩ := extension_exact .standard [.leaf (.custom "text/quiet" .silent)]
  have known : c.accepts applicationJson = true := by decide
  have unknown : c.accepts "image/png" = false := by decide
  have quiet : c.accepts "text/quiet; v=1" = true := by decide
  have greed : ∀ given, greedy.accepts given = true := fun _ => rfl
  obtain ⟨_,_,_,read⟩ := one greedy
  obtain ⟨_,_,_,routed⟩ := many [greedy,c]
  refine ⟨⟨greed _,known,?_⟩,⟨unknown,greed _,?_⟩,⟨quiet,?_⟩⟩
  · exact ((read .bool (.typed applicationJson [0x74])).2 applicationJson rfl).1 known
  · have handed := ((read .bool (.typed "image/png" [0x74,0x72,0x75,0x65])).2 "image/png" rfl).2.1 unknown (greed _)
    exact handed.2
  · refine ((routed .unit (.typed "text/quiet; v=1" [])).1 ?_).trans rfl
    intro given typed
    cases typed
    exact quiet

end Switchboard.Extension
