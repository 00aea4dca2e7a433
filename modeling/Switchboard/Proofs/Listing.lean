import Switchboard.Proofs.Resolution

namespace Switchboard.Listing
open Registration Resolution

-- A store shows the names that it lists, how many it counts, and its map.
structure Keeps {α : Type} (name : α → String) (attempts : List α) (names : List String) (size : Nat)
    (held : Named α) : Prop where
  listed : names = (validNames name attempts).eraseDups
  distinct : names.Nodup
  keys : ∀ key, key ∈ names ↔ key ∈ held.entries.map Prod.fst
  size : size = names.length
  own : ∀ entry ∈ held.entries, name entry.2 = entry.1

theorem rolled_keeps {α : Type} (name : α → String) (attempts : List α) :
    let s := attempts.foldl (enrol name) .empty
    Keeps name attempts s.order s.size s.held := by
  intro s
  have coherent : Coherent s := empty_coherent.run name attempts
  refine ⟨rolled_order name attempts,coherent.nodup,fun key => coherent.mem_iff.symm,coherent.size,?_⟩
  intro entry member
  have held : s.find? entry.1 = some entry.2 := (SortedMap.find?_text _ _ _).mpr member
  rw [find?_enrolled] at held
  exact (first?_some held).2.1

-- A text that is no name is refused as such, whether or not it is listed.
inductive Refusal (names : List String) (key : String) (invalid : String → ConfigurationError)
    (duplicate : ConfigurationError) : ConfigurationError → Prop where
  | invalid {fault : NameFault} (faulty : nameFault? key = some fault) :
      Refusal names key invalid duplicate (invalid fault.reason)
  | duplicate (valid : nameFault? key = none) (again : key ∈ names) :
      Refusal names key invalid duplicate duplicate

section Refused

variable {α : Type} {s : Store α} {key : String} {a : α} {report : NameRefusal → ConfigurationError}
  {e : ConfigurationError}

theorem refused_exact (coherent : Coherent s) {invalid : String → ConfigurationError}
    (faults : ∀ fault, report (.invalid fault) = invalid fault.reason) :
    (s.register key a).1.mapError report = .error e ↔
      Refusal s.order key invalid (report .duplicate) e := by
  rcases register_cases s key a with ⟨fault,faulty,result⟩ | ⟨valid,held,result⟩ | ⟨valid,free,result⟩
  · rw [result]
    constructor
    · intro refused
      cases refused
      rw [faults]
      exact .invalid faulty
    · intro refused
      cases refused with
      | invalid other => cases faulty.symm.trans other; rw [← faults]; rfl
      | duplicate valid => cases faulty.symm.trans valid
  · rw [result]
    constructor
    · intro refused
      cases refused
      exact .duplicate valid ((coherent.listed key).mpr held)
    · intro refused
      cases refused with
      | invalid faulty => cases valid.symm.trans faulty
      | duplicate => rfl
  · rw [result]
    constructor
    · intro refused; cases refused
    · intro refused
      cases refused with
      | invalid faulty => cases valid.symm.trans faulty
      | duplicate _ again =>
          obtain ⟨older,held⟩ := (coherent.listed key).mp again
          cases free.symm.trans held

theorem refused_unchanged (refused : (s.register key a).1.mapError report = .error e) :
    (s.register key a).2 = s := by
  rcases register_cases s key a with ⟨_,_,result⟩ | ⟨_,_,result⟩ | ⟨_,_,result⟩
  · rw [result]
  · rw [result]
  · rw [result] at refused
    cases refused

end Refused

theorem stores_exact (begun : Beginning) (operations : List Operation) (services : List Service) :
    let s := operations.foldl Service.attempt begun.service
    let r := services.foldl Registry.attempt .empty
    (Keeps Operation.name operations s.operationNames s.size s.operations.held ∧
      ∀ op e, ((s.register op).1 = .error e ↔
          Refusal s.operationNames op.name (.invalidOperationName s.name op.name)
            (.duplicateOperation s.name op.name) e) ∧
        ((s.register op).1 = .error e → (s.register op).2 = s)) ∧
    Keeps Service.name services r.serviceNames r.size r.services.held ∧
      ∀ s e, ((r.register s).1 = .error e ↔
          Refusal r.serviceNames s.name (.invalidServiceName s.name) (.duplicateService s.name) e) ∧
        ((r.register s).1 = .error e → (r.register s).2 = r) := by
  intro s r
  have held : s.operations = operations.foldl (enrol Operation.name) .empty := by
    rw [← begun_operations begun]
    exact congrArg Service.operations (service_attempts begun.service operations)
  have kept : r.services = services.foldl (enrol Service.name) .empty :=
    congrArg Registry.services (registry_attempts .empty services)
  have ours : Coherent s.operations := held ▸ empty_coherent.run Operation.name operations
  have theirs : Coherent r.services := kept ▸ empty_coherent.run Service.name services
  refine ⟨⟨?_,fun op e => ⟨refused_exact ours fun _ => rfl,fun refused => ?_⟩⟩,
    ?_,fun s e => ⟨refused_exact theirs fun _ => rfl,fun refused => ?_⟩⟩
  · unfold Service.operationNames Service.size
    rw [held]
    exact rolled_keeps Operation.name operations
  · exact congrArg (fun operations => { s with operations := operations }) (refused_unchanged refused)
  · unfold Registry.serviceNames Registry.size
    rw [kept]
    exact rolled_keeps Service.name services
  · exact congrArg Registry.mk (refused_unchanged refused)

end Switchboard.Listing
