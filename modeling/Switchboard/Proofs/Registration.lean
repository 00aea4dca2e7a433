import Switchboard.Proofs.KeyedEntries
import Switchboard.Registry.Basic

namespace Switchboard.Registration

section Attempt

variable {α : Type} (s : Store α) (name : String) (a : α)

theorem register_cases :
    (∃ fault, nameFault? name = some fault ∧ s.register name a = (.error (.invalid fault),s)) ∨
    (nameFault? name = none ∧ (∃ older, s.find? name = some older) ∧
      s.register name a = (.error .duplicate,s)) ∨
    (nameFault? name = none ∧ s.find? name = none ∧
      s.register name a = (.ok (),⟨s.held.insert name a,s.order ++ [name]⟩)) := by
  unfold Store.register
  cases nameFault? name with
  | some fault => simp
  | none =>
      cases s.find? name with
      | some older => simp
      | none => simp

-- Whatever a refusal is reported as.
theorem register_taken {ε : Type} (report : NameRefusal → ε) :
    (s.register name a).1.mapError report = .ok () ↔ nameFault? name = none ∧ s.find? name = none := by
  rcases register_cases s name a with ⟨fault,faulty,result⟩ | ⟨valid,⟨older,held⟩,result⟩ |
    ⟨valid,free,result⟩
  · rw [result]
    constructor
    · intro taken; cases taken
    · intro free; cases faulty.symm.trans free.1
  · rw [result]
    constructor
    · intro taken; cases taken
    · intro free; cases held.symm.trans free.2
  · rw [result]
    exact ⟨fun _ => ⟨valid,free⟩,fun _ => rfl⟩

end Attempt

section Roll

variable {α : Type}

def enrol (name : α → String) (s : Store α) (a : α) : Store α := (s.register (name a) a).2

-- A text that is no name is nobody's, whatever was attempted under it.
def first? (name : α → String) (attempts : List α) (key : String) : Option α :=
  attempts.find? (fun a => name a = key ∧ nameFault? key = none)

theorem find?_enrol (name : α → String) (s : Store α) (a : α) (key : String) :
    (enrol name s a).find? key = (s.find? key).or (first? name [a] key) := by
  unfold enrol
  rcases register_cases s (name a) a with ⟨fault,faulty,result⟩ | ⟨valid,⟨older,held⟩,result⟩ |
    ⟨valid,free,result⟩
  · by_cases same : name a = key
    · simp [result,first?,← same,faulty]
    · simp [result,first?,same]
  · by_cases same : name a = key
    · simp [result,first?,← same,held]
    · simp [result,first?,same]
  · rw [result]
    by_cases same : name a = key
    · subst same
      rw [free,Option.none_or]
      simp [first?,valid,Store.find?,SortedMap.find?_insert]
    · simp [first?,same,Store.find?,SortedMap.find?_insert_other same]

theorem find?_enrolled (name : α → String) (s : Store α) (attempts : List α) (key : String) :
    (attempts.foldl (enrol name) s).find? key = (s.find? key).or (first? name attempts key) := by
  induction attempts generalizing s with
  | nil => simp [first?]
  | cons a rest ih =>
      have split : first? name (a :: rest) key = (first? name [a] key).or (first? name rest key) := by
        simp only [first?,← List.find?_append,List.singleton_append]
      rw [List.foldl_cons,ih,find?_enrol,split,Option.or_assoc]

-- The list names what the map holds and nothing else, each once.
def Coherent (s : Store α) : Prop := (s.held.entries.map Prod.fst).Perm s.order

theorem empty_coherent : Coherent (.empty : Store α) := List.Perm.refl []

namespace Coherent

variable {s : Store α} (coherent : Coherent s)

include coherent

theorem listed (key : String) : key ∈ s.order ↔ ∃ a, s.find? key = some a := by
  rw [← coherent.mem_iff]
  exact SortedMap.mem_keys s.held key

theorem inhabited : s.order ≠ [] ↔ ∃ key a, s.find? key = some a := by
  constructor
  · intro some
    obtain ⟨key,listed⟩ := List.exists_mem_of_ne_nil _ some
    exact ⟨key,(coherent.listed key).mp listed⟩
  · rintro ⟨key,held⟩
    exact List.ne_nil_of_mem ((coherent.listed key).mpr held)

theorem nodup : s.order.Nodup := coherent.nodup_iff.mp s.held.keys_nodup

theorem size : s.size = s.order.length := by
  rw [← coherent.length_eq,List.length_map]
  rfl

theorem bare : s.size = 0 ↔ s.order = [] := by rw [coherent.size,List.length_eq_zero_iff]

theorem step (name : α → String) (a : α) : Coherent (enrol name s a) := by
  unfold enrol
  rcases register_cases s (name a) a with ⟨_,_,result⟩ | ⟨_,_,result⟩ | ⟨_,free,result⟩
  · rw [result]; exact coherent
  · rw [result]; exact coherent
  · have fresh : ∀ entry ∈ s.held.entries, textRank entry.1 ≠ textRank (name a) := by
      intro entry member same
      have held := (SortedMap.find?_text s.held (name a) entry.2).mpr (textRank_inj.mp same ▸ member)
      cases free.symm.trans held
    have more : ((s.held.insert (name a) a).entries.map Prod.fst).Perm
        (name a :: s.held.entries.map Prod.fst) := (Entries.put_perm fresh).map Prod.fst
    rw [result]
    exact (more.trans (coherent.cons (name a))).trans (List.perm_append_singleton (name a) s.order).symm

theorem run (name : α → String) (attempts : List α) : Coherent (attempts.foldl (enrol name) s) := by
  induction attempts generalizing s with
  | nil => exact coherent
  | cons a rest ih => exact ih (coherent.step name a)

end Coherent

def validNames (name : α → String) (attempts : List α) : List String :=
  (attempts.map name).filter (fun key => nameFault? key = none)

theorem removeAll_snoc (keys listed : List String) (key : String) :
    keys.removeAll (listed ++ [key]) = (keys.removeAll listed).filter (fun other => !other == key) := by
  unfold List.removeAll
  rw [List.filter_filter]
  apply List.filter_congr
  intro other _
  by_cases same : other = key
  · simp [same]
  · simp [same]

-- Each attempt either leaves the names as they are or adds its own at the end, and then no
-- later attempt adds it again. It is the map that refuses, so the list has to agree with it.
theorem enrolled_order (name : α → String) {s : Store α} (coherent : Coherent s) (attempts : List α) :
    (attempts.foldl (enrol name) s).order =
      s.order ++ ((validNames name attempts).removeAll s.order).eraseDups := by
  induction attempts generalizing s with
  | nil => simp [validNames]
  | cons a rest ih =>
      rw [List.foldl_cons,ih (coherent.step name a)]
      unfold enrol
      rcases register_cases s (name a) a with ⟨fault,faulty,result⟩ | ⟨valid,held,result⟩ |
        ⟨valid,free,result⟩
      · simp [result,validNames,faulty]
      · have listed := (coherent.listed (name a)).mpr held
        have names : validNames name (a :: rest) = name a :: validNames name rest := by
          simp [validNames,valid]
        rw [result,names,List.cons_removeAll]
        simp [listed]
      · have unlisted : name a ∉ s.order := fun listed => by
          obtain ⟨older,held⟩ := (coherent.listed (name a)).mp listed
          cases free.symm.trans held
        have names : validNames name (a :: rest) = name a :: validNames name rest := by
          simp [validNames,valid]
        rw [result,names,List.cons_removeAll]
        simp only [removeAll_snoc]
        simp [unlisted,List.eraseDups_cons]

theorem rolled_order (name : α → String) (attempts : List α) :
    (attempts.foldl (enrol name) .empty).order = (validNames name attempts).eraseDups := by
  have all := enrolled_order name empty_coherent attempts
  rwa [show (Store.empty : Store α).order = [] from rfl,List.nil_append,List.removeAll_nil] at all

theorem earlier_differs {key : α → String} {before after : List α} {a : α}
    (distinct : ((before ++ a :: after).map key).Nodup) : ∀ other ∈ before, key other ≠ key a := by
  intro other earlier
  rw [List.map_append,List.map_cons,List.nodup_append] at distinct
  exact distinct.2.2 (key other) (List.mem_map_of_mem earlier) (key a) List.mem_cons_self

theorem first?_some {name : α → String} {attempts : List α} {key : String} {a : α}
    (first : first? name attempts key = some a) : a ∈ attempts ∧ name a = key ∧ nameFault? key = none := by
  have holds := List.find?_some first
  exact ⟨List.mem_of_find?_eq_some first,by simpa using holds⟩

theorem first?_exact {name : α → String} {attempts : List α} (distinct : (attempts.map name).Nodup)
    (key : String) (a : α) :
    first? name attempts key = some a ↔ a ∈ attempts ∧ name a = key ∧ nameFault? key = none := by
  refine ⟨first?_some,?_⟩
  rintro ⟨member,rfl,valid⟩
  obtain ⟨before,after,rfl⟩ := List.append_of_mem member
  refine List.find?_eq_some_iff_append.mpr ⟨by simp [valid],before,after,rfl,fun other earlier => ?_⟩
  simp [earlier_differs distinct other earlier]

theorem first?_perm {name : α → String} {attempts others : List α} (same : attempts.Perm others)
    (distinct : (attempts.map name).Nodup) (key : String) :
    first? name attempts key = first? name others key := by
  have also : (others.map name).Nodup := (same.map name).nodup_iff.mp distinct
  apply Option.ext
  intro a
  rw [first?_exact distinct,first?_exact also,same.mem_iff]

-- The first of each valid name is taken, so all are taken if there are no others.
theorem taken_exact (name : α → String) (attempts : List α) :
    (∀ before a after, attempts = before ++ a :: after →
      nameFault? (name a) = none ∧ first? name before (name a) = none) ↔
    (∀ a ∈ attempts, nameFault? (name a) = none) ∧ (attempts.map name).Nodup := by
  have free : ∀ before a, nameFault? (name a) = none →
      (first? name before (name a) = none ↔ name a ∉ before.map name) := by
    intro before a valid
    simp [first?,valid]
  constructor
  · intro taken
    refine ⟨fun a member => ?_,?_⟩
    · obtain ⟨before,after,split⟩ := List.append_of_mem member
      exact (taken before a after split).1
    · induction attempts with
      | nil => exact List.nodup_nil
      | cons a rest ih =>
          have earlier : ∀ before b after, rest = before ++ b :: after →
              nameFault? (name b) = none ∧ name b ∉ (a :: before).map name := by
            rintro before b after rfl
            obtain ⟨valid,first⟩ := taken (a :: before) b after rfl
            exact ⟨valid,(free _ b valid).mp first⟩
          rw [List.map_cons,List.nodup_cons]
          constructor
          · intro again
            obtain ⟨b,member,same⟩ := List.mem_map.mp again
            obtain ⟨before,after,split⟩ := List.append_of_mem member
            exact (earlier before b after split).2 (by simp [same])
          · refine ih (fun before b after split => ?_)
            obtain ⟨valid,first⟩ := earlier before b after split
            rw [List.map_cons,List.mem_cons,not_or] at first
            exact ⟨valid,(free before b valid).mpr first.2⟩
  · rintro ⟨valid,distinct⟩ before a after rfl
    have sound := valid a (by simp)
    refine ⟨sound,(free before a sound).mpr fun earlier => ?_⟩
    obtain ⟨other,member,same⟩ := List.mem_map.mp earlier
    exact earlier_differs distinct other member same

theorem taken_perm {name : α → String} {attempts others : List α} (same : attempts.Perm others)
    (taken : (∀ a ∈ attempts, nameFault? (name a) = none) ∧ (attempts.map name).Nodup) :
    (∀ a ∈ others, nameFault? (name a) = none) ∧ (others.map name).Nodup :=
  ⟨fun a member => taken.1 a (same.mem_iff.mpr member),(same.map name).nodup_iff.mp taken.2⟩

end Roll

theorem service_taken (s : Service) (op : Operation) :
    (s.register op).1 = .ok () ↔ nameFault? op.name = none ∧ s.operation? op.name = none :=
  register_taken s.operations op.name op (s.refusal op.name)

theorem service_attempts (s : Service) (attempts : List Operation) :
    attempts.foldl Service.attempt s =
      { s with operations := attempts.foldl (enrol Operation.name) s.operations } :=
  List.foldl_hom (fun operations => { s with operations := operations }) (fun _ _ => rfl)

theorem registry_taken (r : Registry) (s : Service) :
    (r.register s).1 = .ok () ↔ nameFault? s.name = none ∧ r.service? s.name = none :=
  register_taken r.services s.name s (Registry.refusal s.name)

theorem registry_attempts (r : Registry) (attempts : List Service) :
    attempts.foldl Registry.attempt r = ⟨attempts.foldl (enrol Service.name) r.services⟩ :=
  List.foldl_hom Registry.mk (fun _ _ => rfl)

structure Agreeing (r : Registry) : Prop where
  services : Coherent r.services
  operations : ∀ s service, r.service? s = some service → Coherent service.operations

theorem empty_agreeing : Agreeing .empty :=
  ⟨empty_coherent,fun _ _ held => by cases held⟩

theorem Agreeing.step {r : Registry} (agreeing : Agreeing r) {s : Service}
    (coherent : Coherent s.operations) : Agreeing (r.attempt s) := by
  refine ⟨agreeing.services.step Service.name s,fun key service held => ?_⟩
  have found : (r.service? key).or (first? Service.name [s] key) = some service :=
    (find?_enrol Service.name r.services s key).symm.trans held
  rcases Option.or_eq_some_iff.mp found with older | ⟨_,new⟩
  · exact agreeing.operations key service older
  · cases List.mem_singleton.mp (first?_some new).1
    exact coherent

end Switchboard.Registration
