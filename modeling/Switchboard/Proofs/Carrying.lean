import Switchboard.Operation.Result
import Switchboard.Schema.Catalogue
import Switchboard.Serializer.Builtin

namespace Switchboard.Carrying

section Erasure

theorem holds_exact (e : Erased) (t : Ty) : e.holds t = true ↔ t = e.ty := by
  rw [Erased.holds,decide_eq_true_iff,eq_comm]

theorem view_own (e : Erased) : e.view? e.ty = some e.value := by
  simp [Erased.view?]

theorem view_other {e : Erased} {t : Ty} (other : e.ty ≠ t) : e.view? t = none := by
  simp [Erased.view?,other]

theorem encodeAs_own (t : Ty) (v : t.Value) (s : Serializer) :
    Erased.encodeAs t ⟨t,v⟩ s = s.toPayload t v := by
  rw [Erased.encodeAs,view_own ⟨t,v⟩]

end Erasure

section Attempts

theorem downcast_own (w : SyncValue) : w.downcast w.held.ty = .ok w.held.value := by
  rw [SyncValue.downcast,Erased.takeOut,view_own]

-- The whole that is put together again is the one that was taken apart.
theorem downcast_other {w : SyncValue} {t : Ty} (other : w.held.ty ≠ t) : w.downcast t = .error w := by
  rw [SyncValue.downcast,Erased.takeOut,view_other other]

-- Attempts at one type after another, each on what the last one gave back.
def tried : List Ty → SyncValue → Except SyncValue Erased
  | [],w => .error w
  | t :: rest,w =>
    match w.downcast t with
    | .ok value => .ok ⟨t,value⟩
    | .error kept => tried rest kept

theorem tried_exact (attempts : List Ty) (w : SyncValue) :
    tried attempts w = if w.held.ty ∈ attempts then .ok w.held else .error w := by
  induction attempts with
  | nil => simp [tried]
  | cons t rest ih =>
      by_cases own : w.held.ty = t
      · subst own
        simp [tried,downcast_own]
      · simp [tried,downcast_other own,ih,own]

end Attempts

-- The encoder that is kept is the one for the type of the value and finds the value there, so it
-- never has to answer that the value is of another type.
theorem carrying_exact (t : Ty) (v : t.Value) (attempts : List Ty) (others : t ∉ attempts) :
    ∃ kept, tried attempts (.of t v) = .error kept ∧
      kept.typeName = t.typeName ∧
      (∀ u, kept.holds u = true ↔ u = t) ∧
      (∀ s, kept.toPayload s = s.toPayload t v) ∧
      (kept.encode = Erased.encodeAs t ∧ kept.view? t = some v) ∧
      kept.downcast t = .ok v := by
  refine ⟨.of t v,?_,rfl,fun u => ?_,fun s => ?_,⟨rfl,?_⟩,?_⟩
  · rw [tried_exact]
    exact if_neg others
  · exact holds_exact ⟨t,v⟩ u
  · exact encodeAs_own t v s
  · exact view_own ⟨t,v⟩
  · exact downcast_own (.of t v)

-- A guarded number looks like any whole number and is of another type all the same. This one
-- is negative, so that a failure to write it has to be the codec's own.
theorem guarded_value_handed_back_unchanged :
    Ty.guarded ∉ [Catalogue.i64,.text,.option .guarded,Catalogue.i64] ∧
    ∃ kept, tried [Catalogue.i64,.text,.option .guarded,Catalogue.i64]
        (.of .guarded (IntKind.nearest .i64 (-3))) = .error kept ∧
      kept.typeName = "driver::types::Picky" ∧ kept.holds Catalogue.i64 = false ∧
      kept.toPayload .json = .error (.encode applicationJson .codec) ∧
      kept.toPayload .msgPack = .error (.encode applicationMsgPack .codec) ∧
      kept.downcast .guarded = .ok (IntKind.nearest .i64 (-3)) := by
  have others : Ty.guarded ∉ [Catalogue.i64,.text,.option .guarded,Catalogue.i64] := by decide
  obtain ⟨kept,back,named,typed,written,_,out⟩ := carrying_exact .guarded (IntKind.nearest .i64 (-3)) _ others
  refine ⟨others,kept,back,named,?_,written .json,written .msgPack,out⟩
  rw [Bool.eq_false_iff,ne_eq,typed]
  decide

end Switchboard.Carrying
