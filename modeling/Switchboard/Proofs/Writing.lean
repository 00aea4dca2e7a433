import Switchboard.Proofs.Faithful
import Switchboard.Schema.Script

namespace Switchboard.Script

variable {N K : Type} {script : Script N K}

theorem writeFields_labelled : (fields : Fields) → (v : fields.Value) →
    script.writeFields fields v =
      (fields.labelled script.write v).map (List.map (fun pair => (script.name pair.1,pair.2)))
  | .nil,_ => rfl
  | .cons name presence t rest,v => by
      rw [writeFields,Fields.labelled]
      split
      · exact writeFields_labelled rest v.2
      · rw [writeFields_labelled rest v.2]
        cases script.write t v.1 <;> cases rest.labelled script.write v.2 <;> rfl

theorem write_map_entry {k : KeyTy} {t : Ty} {entry : k.Value × t.Value} {written : K × N}
    (wrote : (do
      let key ← script.key? k entry.1
      let item ← script.write t entry.2
      return (key,item)) = some written) :
    script.key? k entry.1 = some written.1 ∧ script.write t entry.2 = some written.2 := by
  obtain ⟨key,outer,wrote⟩ := Option.bind_eq_some_iff.mp wrote
  obtain ⟨item,inner,wrote⟩ := Option.bind_eq_some_iff.mp wrote
  cases wrote
  exact ⟨outer,inner⟩

-- No sign but its own is the one for an absent value. Numbers with a fraction are left out.
structure Solid (script : Script N K) : Prop where
  bool : ∀ b, script.bool b ≠ script.null
  int : ∀ n, script.int n ≠ script.null
  text : ∀ s, script.text s ≠ script.null
  bytes : ∀ bs, script.bytes bs ≠ script.null
  array : ∀ items, script.array items ≠ script.null
  object : ∀ members, script.object members ≠ script.null

theorem writeVariant_solid (solid : Solid script) : (variants : Variants) → (v : variants.Value) →
    script.writeVariant variants v ≠ some script.null
  | .bare name _,.inl _ => fun written => solid.text name (Option.some.inj written)
  | .bare _ rest,.inr v => writeVariant_solid solid rest v
  | .holding _ _ _,.inl _ => fun written => by
      obtain ⟨_,_,same⟩ := Option.map_eq_some_iff.mp written
      exact solid.object _ same
  | .holding _ _ rest,.inr v => writeVariant_solid solid rest v

theorem write_solid (solid : Solid script) {t : Ty} (present : t.mayBeNil = false)
    (real : ∀ (f : Format) (x : Binary f), script.float x = script.null → t ≠ .float f) (v : t.Value) :
    script.write t v ≠ some script.null := by
  intro written
  cases t with
  | unit | option _ | document | ignored => cases present
  | bool => exact solid.bool v (Option.some.inj written)
  | int _ => exact solid.int v.val (Option.some.inj written)
  | float f => exact real f v (Option.some.inj written) rfl
  | char | text => exact solid.text _ (Option.some.inj written)
  | bytes => exact solid.bytes v (Option.some.inj written)
  | list t =>
      obtain ⟨items,_,same⟩ := Option.map_eq_some_iff.mp written
      exact solid.array items same
  | pair s t =>
      obtain ⟨_,_,written⟩ := Option.bind_eq_some_iff.mp written
      obtain ⟨_,_,written⟩ := Option.bind_eq_some_iff.mp written
      exact solid.array _ (Option.some.inj written)
  | map k t =>
      obtain ⟨members,_,same⟩ := Option.map_eq_some_iff.mp written
      exact solid.object members same
  | guarded =>
      rw [write] at written
      split at written
      · cases written
      · exact solid.int v.val (Option.some.inj written)
  | record _ _ fields =>
      obtain ⟨members,_,same⟩ := Option.map_eq_some_iff.mp written
      exact solid.object members same
  | choice _ variants => exact writeVariant_solid solid variants v written

-- What a value itself must be like for the format to have a sign for it.
structure Permits (script : Script N K) (Permitted : (t : Ty) → t.Value → Prop) : Prop where
  map : ∀ k t map, Permitted (.map k t) map ↔
    ∀ entry ∈ map.entries, (script.key? k entry.1).isSome = true
  guarded : ∀ n, Permitted .guarded n ↔ 0 ≤ n.val
  other : ∀ t v, (∀ k s, t ≠ .map k s) → t ≠ .guarded → Permitted t v

variable {Permitted : (t : Ty) → t.Value → Prop}

theorem permitted_blank (permits : Permits script Permitted) (t : Ty) (v : t.Value)
    (blank : t.isBlank v = true) : Permitted t v := by
  cases t with
  | option _ | list _ => exact permits.other _ v nofun nofun
  | _ => cases blank

mutual
theorem write_isSome (permits : Permits script Permitted) : (t : Ty) → (v : t.Value) →
    ((script.write t v).isSome = true ↔ t.Throughout Permitted v)
  | .unit,v | .bool,v | .int _,v | .float _,v | .char,v | .text,v | .bytes,v | .document,v
  | .ignored,v => by simp [write,Ty.Throughout,permits.other _ v nofun nofun]
  | .option t,none => by
      have own : Permitted (.option t) none := permits.other _ _ nofun nofun
      simp [write,Ty.Throughout,own]
  | .option t,some v => by
      have own : Permitted (.option t) (some v) := permits.other _ _ nofun nofun
      simp [write,Ty.Throughout,own,write_isSome permits t v]
  | .list t,vs => by
      have own : Permitted (.list t) vs := permits.other _ _ nofun nofun
      simp only [write,Ty.Throughout,own,true_and,Option.isSome_map,mapM_isSome,write_isSome permits t]
  | .pair s t,(x,y) => by
      have own : Permitted (.pair s t) (x,y) := permits.other _ _ nofun nofun
      simp only [Ty.Throughout,own,true_and,← write_isSome permits s x,← write_isSome permits t y]
      rw [write]
      cases script.write s x <;> cases script.write t y <;> simp
  | .map k t,map => by
      simp only [write,Ty.Throughout,permits.map,Option.isSome_map,mapM_isSome,← forall_and]
      refine forall_congr' (fun entry => imp_congr_right (fun _ => ?_))
      rw [← write_isSome permits t entry.2]
      cases script.key? k entry.1 <;> cases script.write t entry.2 <;> simp
  | .guarded,n => by
      simp only [write,Ty.Throughout,permits.guarded]
      split <;> simp <;> omega
  | .record name unknown fields,v => by
      have own : Permitted (.record name unknown fields) v := permits.other _ _ nofun nofun
      simp only [write,Ty.Throughout,own,true_and,Option.isSome_map,writeFields_isSome permits fields v]
  | .choice name variants,v => by
      have own : Permitted (.choice name variants) v := permits.other _ _ nofun nofun
      simp only [write,Ty.Throughout,own,true_and,writeVariant_isSome permits variants v]

theorem writeFields_isSome (permits : Permits script Permitted) : (fields : Fields) → (v : fields.Value) →
    ((script.writeFields fields v).isSome = true ↔ fields.Throughout Permitted v)
  | .nil,_ => by simp [writeFields,Fields.Throughout]
  | .cons _ presence t rest,v => by
      rw [Fields.Throughout,← writeFields_isSome permits rest v.2,writeFields]
      split
      · rename_i skipped
        simp [Presence.throughout_of_skips (permitted_blank permits) skipped]
      · rw [← write_isSome permits t v.1]
        cases script.write t v.1 <;> cases script.writeFields rest v.2 <;> simp

theorem writeVariant_isSome (permits : Permits script Permitted) : (variants : Variants) →
    (v : variants.Value) → ((script.writeVariant variants v).isSome = true ↔ variants.Throughout Permitted v)
  | .bare _ _,.inl _ => by simp [writeVariant,Variants.Throughout]
  | .bare _ rest,.inr v => writeVariant_isSome permits rest v
  | .holding _ t _,.inl v => by
      simp only [writeVariant,Variants.Throughout,Option.isSome_map,write_isSome permits t v]
  | .holding _ _ rest,.inr v => writeVariant_isSome permits rest v
end

end Switchboard.Script
