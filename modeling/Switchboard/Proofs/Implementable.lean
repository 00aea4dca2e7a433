import Mathlib.Data.List.Dedup
import Switchboard.Proofs.Compilation

namespace Switchboard.Implementable
open Compilation Registration

def fitted (attempts : List Operation) (d : ServiceDefinition) : Service :=
  attempts.foldl Service.attempt (.ofDefinition d)

def Implements (attempts : List Operation) (d : ServiceDefinition) : Prop :=
  ∃ r h, Registry.empty.register (fitted attempts d) = (.ok (),r) ∧ r.newHandler = .ok h

-- Nothing is asked of the types but that one name does not get two of them.
structure Consistent (d : ServiceDefinition) : Prop where
  name : nameFault? d.name = none
  inhabited : d.operations ≠ []
  names : ∀ declared ∈ d.operations, nameFault? declared.name = none
  agree : ∀ one ∈ d.operations, ∀ two ∈ d.operations, one.name = two.name →
    one.input = two.input ∧ one.output = two.output

section Fitted

variable (attempts : List Operation) (d : ServiceDefinition)

theorem fitted_eq : fitted attempts d = ⟨d.name,some d,attempts.foldl (enrol Operation.name) .empty⟩ :=
  service_attempts (.ofDefinition d) attempts

theorem fitted_operation (o : String) :
    (fitted attempts d).operation? o = first? Operation.name attempts o := by
  rw [fitted_eq,Service.operation?,find?_enrolled]
  rfl

theorem fitted_coherent : Coherent (fitted attempts d).operations := by
  rw [fitted_eq]
  exact empty_coherent.run Operation.name attempts

theorem implements_exact :
    Implements attempts d ↔ nameFault? d.name = none ∧ Sound (fitted attempts d) := by
  have name : (fitted attempts d).name = d.name := by rw [fitted_eq]
  have taken : (Registry.empty.register (fitted attempts d)).1 = .ok () ↔ nameFault? d.name = none := by
    rw [registry_taken,name]
    exact and_iff_left rfl
  have agreeing : Agreeing (Registry.empty.attempt (fitted attempts d)) :=
    empty_agreeing.step (fitted_coherent attempts d)
  have alone : ∀ s, (Registry.empty.attempt (fitted attempts d)).service? s =
      first? Service.name [fitted attempts d] s := find?_enrol Service.name .empty (fitted attempts d)
  have found : nameFault? d.name = none →
      (Registry.empty.attempt (fitted attempts d)).service? d.name = some (fitted attempts d) := by
    intro valid
    rw [alone]
    exact (first?_exact (by simp) d.name _).mpr ⟨List.mem_cons_self,name,valid⟩
  constructor
  · intro implements
    obtain ⟨r,h,registered,compiled⟩ := implements
    have valid := taken.mp (congrArg Prod.fst registered)
    have same : Registry.empty.attempt (fitted attempts d) = r := congrArg Prod.snd registered
    obtain ⟨_,sound,_⟩ := (newHandler_ok (same ▸ agreeing) h).mp compiled
    exact ⟨valid,sound d.name _ (same ▸ found valid)⟩
  · intro both
    obtain ⟨valid,sound⟩ := both
    refine ⟨_,_,Prod.ext (taken.mpr valid) rfl,(newHandler_ok agreeing _).mpr ⟨?_,?_,rfl⟩⟩
    · exact agreeing.services.inhabited.mpr ⟨d.name,_,found valid⟩
    · intro s service held
      rw [alone] at held
      rw [List.mem_singleton.mp (first?_some held).1]
      exact sound

end Fitted

-- Every declaration is met by an operation that was taken, so its name is valid, and two
-- declarations of one name are met by the same operation.
theorem consistent_of_implements {attempts : List Operation} {d : ServiceDefinition}
    (implements : Implements attempts d) : Consistent d := by
  obtain ⟨valid,sound⟩ := (implements_exact attempts d).mp implements
  have fulfils : Fulfils (fitted attempts d) d := sound.promise d (by rw [fitted_eq])
  refine ⟨valid,?_,?_,?_⟩
  · intro bare
    obtain ⟨name,listed⟩ := List.exists_mem_of_ne_nil _ sound.inhabited
    obtain ⟨declared,inside,_⟩ := (fulfils.names name).mpr listed
    rw [bare] at inside
    cases inside
  · intro declared member
    obtain ⟨op,found,_⟩ := fulfils.types declared member
    rw [fitted_operation] at found
    exact (first?_some found).2.2
  · intro one first two second same
    obtain ⟨op,found,takes,gives⟩ := fulfils.types one first
    obtain ⟨other,again,alsoTakes,alsoGives⟩ := fulfils.types two second
    rw [same] at found
    cases found.symm.trans again
    exact ⟨takes.symm.trans alsoTakes,gives.symm.trans alsoGives⟩

-- A function that always fails has any type, also one that has no values.
def stub (declared : OperationDescriptor) : Operation :=
  .sync declared.name declared.input declared.output
    (fun _ _ _ => .done (.error (.request .notImplemented declared.name [])))

def stubs (d : ServiceDefinition) : List Operation := d.operations.dedup.map stub

section Stubs

variable {d : ServiceDefinition} (consistent : Consistent d)

include consistent

theorem stubs_valid (op : Operation) (member : op ∈ stubs d) : nameFault? op.name = none := by
  obtain ⟨declared,inside,same⟩ := List.mem_map.mp member
  rw [← same]
  exact consistent.names declared (List.mem_dedup.mp inside)

-- Declarations of one name say the same, and what is said twice is implemented once.
theorem stubs_distinct : ((stubs d).map Operation.name).Nodup := by
  have names : (stubs d).map Operation.name = d.operations.dedup.map OperationDescriptor.name := by
    rw [stubs,List.map_map]
    rfl
  rw [names]
  apply List.Nodup.map_on _ d.operations.nodup_dedup
  intro one first two second same
  obtain ⟨takes,gives⟩ := consistent.agree one (List.mem_dedup.mp first) two (List.mem_dedup.mp second) same
  cases one
  cases two
  simp_all

theorem stubs_found (declared : OperationDescriptor) (member : declared ∈ d.operations) :
    (fitted (stubs d) d).operation? declared.name = some (stub declared) := by
  rw [fitted_operation]
  apply (first?_exact (stubs_distinct consistent) declared.name (stub declared)).mpr
  exact ⟨List.mem_map_of_mem (List.mem_dedup.mpr member),rfl,consistent.names declared member⟩

theorem stubs_sound : Sound (fitted (stubs d) d) := by
  have promised : (fitted (stubs d) d).definition = some d := by rw [fitted_eq]
  have coherent := fitted_coherent (stubs d) d
  have inhabited : (fitted (stubs d) d).operationNames ≠ [] := by
    obtain ⟨declared,member⟩ := List.exists_mem_of_ne_nil _ consistent.inhabited
    exact List.ne_nil_of_mem ((coherent.listed declared.name).mpr ⟨_,stubs_found consistent declared member⟩)
  apply (sound_promised inhabited promised).mpr
  apply (fulfils_exact _ d coherent).mpr
  constructor
  · intro declared member
    exact ⟨stub declared,stubs_found consistent declared member,rfl,rfl⟩
  · intro name listed
    obtain ⟨op,found⟩ := (coherent.listed name).mp listed
    rw [← Service.operation?,fitted_operation] at found
    obtain ⟨member,own,_⟩ := first?_some found
    obtain ⟨declared,inside,same⟩ := List.mem_map.mp member
    refine ⟨declared,List.mem_dedup.mp inside,?_⟩
    rw [← own,← same]
    rfl

theorem stubs_taken (before : List Operation) (op : Operation) (after : List Operation)
    (split : stubs d = before ++ op :: after) :
    ((fitted before d).register op).1 = .ok () := by
  rw [service_taken,fitted_operation]
  exact (taken_exact Operation.name (stubs d)).mpr
    ⟨stubs_valid consistent,stubs_distinct consistent⟩ before op after split

end Stubs

-- Attempts may be of any operations and may fail. Of a consistent definition more is true:
-- operations that run functions implement it, and none of them is refused.
theorem implementable_exact (d : ServiceDefinition) :
    ((∃ attempts, Implements attempts d) ↔ Consistent d) ∧
    (Consistent d → ∃ attempts, Implements attempts d ∧
      (∀ op ∈ attempts, ∃ name i o function, op = .sync name i o function) ∧
      ∀ before op after, attempts = before ++ op :: after →
        ((fitted before d).register op).1 = .ok ()) := by
  have enough : Consistent d → Implements (stubs d) d := by
    intro consistent
    exact (implements_exact (stubs d) d).mpr ⟨consistent.name,stubs_sound consistent⟩
  refine ⟨⟨?_,?_⟩,?_⟩
  · intro possible
    obtain ⟨attempts,implements⟩ := possible
    exact consistent_of_implements implements
  · intro consistent
    exact ⟨stubs d,enough consistent⟩
  · intro consistent
    refine ⟨stubs d,enough consistent,?_,stubs_taken consistent⟩
    intro op member
    obtain ⟨declared,_,same⟩ := List.mem_map.mp member
    exact ⟨_,_,_,_,same.symm⟩

end Switchboard.Implementable
