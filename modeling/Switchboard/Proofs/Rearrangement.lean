import Switchboard.Operation.Readymade
import Switchboard.Proofs.Compilation
import Switchboard.Proofs.Resolution

namespace Switchboard.Rearrangement
open Compilation Registration Resolution

-- Services are begun, take operations in turns, and are handed over one after the other.
structure Run (ι : Type) where
  begun : ι → Beginning
  turns : List (ι × Operation)
  order : List ι

section Runs

variable {ι : Type} [DecidableEq ι]

namespace Run

def name (run : Run ι) (label : ι) : String := (run.begun label).service.name

def service (run : Run ι) : ι → Service := made run.begun run.turns

def registry (run : Run ι) : Registry := handedOver run.service run.order

-- Each registration is judged by what those before it have left.
structure Succeeds (run : Run ι) : Prop where
  operations : ∀ before turn after, run.turns = before ++ turn :: after →
    ((made run.begun before turn.1).register turn.2).1 = .ok ()
  services : ∀ before label after, run.order = before ++ label :: after →
    ((handedOver run.service before).register (run.service label)).1 = .ok ()

structure Distinct (run : Run ι) : Prop where
  services : (run.order.map run.name).Nodup
  operations : ∀ label ∈ run.order, ((attemptedOn label run.turns).map Operation.name).Nodup

end Run

inductive Reworded : Beginning → Beginning → Prop where
  | named (name : String) : Reworded (.named name) (.named name)
  | promised {d e : ServiceDefinition} (name : d.name = e.name)
      (operations : d.operations.Perm e.operations) : Reworded (.promised d) (.promised e)

-- Turns of different services may also come to stand between each other in any other way.
structure Rearranged (one two : Run ι) : Prop where
  begun : ∀ label, Reworded (one.begun label) (two.begun label)
  operations : ∀ label, (attemptedOn label one.turns).Perm (attemptedOn label two.turns)
  services : one.order.Perm two.order

theorem reworded_symm {a b : Beginning} (same : Reworded a b) : Reworded b a := by
  cases same with
  | named name => exact .named name
  | promised name operations => exact .promised name.symm operations.symm

theorem reworded_name {a b : Beginning} (same : Reworded a b) : b.service.name = a.service.name := by
  cases same with
  | named name => rfl
  | promised name => exact name.symm

theorem reworded_promise {a b : Beginning} (same : Reworded a b) {e : ServiceDefinition}
    (promised : b.service.definition = some e) :
    ∃ d, a.service.definition = some d ∧ d.operations.Perm e.operations := by
  cases same with
  | named name => cases promised
  | promised name operations => cases promised; exact ⟨_,rfl,operations⟩

theorem rearranged_symm {one two : Run ι} (same : Rearranged one two) : Rearranged two one :=
  ⟨fun label => reworded_symm (same.begun label),fun label => (same.operations label).symm,
    same.services.symm⟩

theorem rearranged_name {one two : Run ι} (same : Rearranged one two) : two.name = one.name := by
  funext label
  exact reworded_name (same.begun label)

theorem rearranged_distinct {one two : Run ι} (same : Rearranged one two) (distinct : one.Distinct) :
    two.Distinct := by
  constructor
  · rw [rearranged_name same]
    exact (same.services.map one.name).nodup_iff.mp distinct.services
  · intro label member
    have listed := distinct.operations label (same.services.mem_iff.mpr member)
    exact ((same.operations label).map Operation.name).nodup_iff.mp listed

theorem attemptedOn_split {label : ι} {turns : List (ι × Operation)} {earlier later : List Operation}
    {op : Operation} (split : attemptedOn label turns = earlier ++ op :: later) :
    ∃ before after, turns = before ++ (label,op) :: after ∧ attemptedOn label before = earlier := by
  obtain ⟨first,second,own,rfl,more⟩ := List.map_eq_append_iff.mp split
  obtain ⟨turn,rest,rfl,rfl,_⟩ := List.map_eq_cons_iff.mp more
  obtain ⟨before,tail,rfl,rfl,inside⟩ := List.filter_eq_append_iff.mp own
  obtain ⟨others,after,rfl,foreign,same,_⟩ := List.filter_eq_cons_iff.mp inside
  have label : turn.1 = label := of_decide_eq_true same
  subst label
  refine ⟨before ++ others,after,by simp,?_⟩
  simp [attemptedOn,List.filter_append,List.filter_eq_nil_iff.mpr foreign]

-- Nothing is refused exactly if names are valid and distinct, and no order of things changes that.
theorem turns_taken (run : Run ι) :
    (∀ before turn after, run.turns = before ++ turn :: after →
      ((made run.begun before turn.1).register turn.2).1 = .ok ()) ↔
    ∀ label, (∀ op ∈ attemptedOn label run.turns, nameFault? op.name = none) ∧
      ((attemptedOn label run.turns).map Operation.name).Nodup := by
  simp only [service_taken,made_operation,← taken_exact]
  constructor
  · intro taken label earlier op later split
    obtain ⟨before,after,whole,rfl⟩ := attemptedOn_split split
    exact taken before (label,op) after whole
  · intro taken before turn after whole
    refine taken turn.1 (attemptedOn turn.1 before) turn.2 (attemptedOn turn.1 after) ?_
    simp [attemptedOn,whole]

theorem services_taken (run : Run ι) :
    (∀ before label after, run.order = before ++ label :: after →
      ((handedOver run.service before).register (run.service label)).1 = .ok ()) ↔
    (∀ label ∈ run.order, nameFault? (run.name label) = none) ∧ (run.order.map run.name).Nodup := by
  have name : ∀ label, (run.service label).name = run.name label := made_name run.begun run.turns
  have held : ∀ before key, (handedOver run.service before).service? key =
      (first? run.name before key).map run.service := handedOver_service run.begun run.turns
  simp only [registry_taken,name,held,Option.map_eq_none_iff,taken_exact]

theorem succeeds_rearranged {one two : Run ι} (same : Rearranged one two) (succeeds : one.Succeeds) :
    two.Succeeds := by
  obtain ⟨operations,services⟩ := succeeds
  rw [turns_taken] at operations
  rw [services_taken] at services
  refine ⟨(turns_taken two).mpr fun label => ?_,(services_taken two).mpr ?_⟩
  · exact taken_perm (same.operations label) (operations label)
  · rw [rearranged_name same]
    exact taken_perm same.services services

theorem service_definition (run : Run ι) (label : ι) :
    (run.service label).definition = (run.begun label).service.definition := by
  rw [Run.service,made,attempted_turns,service_attempts]

theorem service_coherent (run : Run ι) (label : ι) : Coherent (run.service label).operations :=
  made_coherent run.begun run.turns label

theorem registry_service (run : Run ι) (s : String) :
    run.registry.service? s = (first? run.name run.order s).map run.service :=
  handedOver_service run.begun run.turns run.order s

theorem registry_agreeing (run : Run ι) : Agreeing run.registry :=
  handedOver_agreeing run.begun run.turns run.order

-- Whether a handler can be made shows in what can be looked up.
theorem compiles_exact (run : Run ι) :
    (∃ h, run.registry.newHandler = .ok h) ↔
      (∃ s service, run.registry.service? s = some service) ∧
      ∀ s service, run.registry.service? s = some service → Sound service := by
  have agreeing := registry_agreeing run
  have inhabited : run.registry.serviceNames ≠ [] ↔ ∃ s service, run.registry.service? s = some service :=
    agreeing.services.inhabited
  simp only [newHandler_ok agreeing,inhabited,← and_assoc,exists_and_left,exists_eq,and_true]

theorem sound_of_alike {a b : Service} (left : Coherent a.operations) (right : Coherent b.operations)
    (operations : ∀ o, b.operation? o = a.operation? o)
    (promises : ∀ e, b.definition = some e → ∃ d, a.definition = some d ∧ d.operations.Perm e.operations)
    (sound : Sound a) : Sound b := by
  have names : ∀ name, name ∈ b.operationNames ↔ name ∈ a.operationNames := by
    intro name
    refine (right.listed name).trans (Iff.trans ?_ (left.listed name).symm)
    change (∃ op, b.operation? name = some op) ↔ ∃ op, a.operation? name = some op
    rw [operations]
  constructor
  · obtain ⟨name,listed⟩ := List.exists_mem_of_ne_nil _ sound.inhabited
    exact List.ne_nil_of_mem ((names name).mpr listed)
  · intro e promised
    obtain ⟨d,given,same⟩ := promises e promised
    obtain ⟨met,declared⟩ := (fulfils_exact a d left).mp (sound.promise d given)
    refine (fulfils_exact b e right).mpr ⟨fun descriptor member => ?_,fun name member => ?_⟩
    · unfold Meets
      rw [operations]
      exact met descriptor (same.mem_iff.mpr member)
    · obtain ⟨descriptor,member,named⟩ := declared name ((names name).mp member)
      exact ⟨descriptor,same.mem_iff.mp member,named⟩

theorem resolve_of_lookups {h k : Handler} {s o : String}
    (same : (h.service? s).map (fun service => service.operation? o) =
      (k.service? s).map (fun service => service.operation? o)) : h.resolve s o = k.resolve s o := by
  unfold Handler.resolve
  cases left : h.service? s with
  | none =>
      rw [left,Option.map_none] at same
      rw [Option.map_eq_none_iff.mp same.symm]
  | some service =>
      rw [left,Option.map_some] at same
      obtain ⟨other,right,found⟩ := Option.map_eq_some_iff.mp same.symm
      simp only [right,found]

section Pair

variable {one two : Run ι} (same : Rearranged one two) (distinct : one.Distinct)

include same distinct

theorem first_same (s : String) : first? two.name two.order s = first? one.name one.order s := by
  rw [rearranged_name same]
  exact (first?_perm same.services distinct.services s).symm

theorem operation_same {label : ι} (member : label ∈ one.order) (o : String) :
    (two.service label).operation? o = (one.service label).operation? o := by
  rw [Run.service,Run.service,made_operation,made_operation]
  exact (first?_perm (same.operations label) (distinct.operations label member) o).symm

-- Under each name both registries hold nothing, or services made under one label.
theorem service_same (s : String) :
    (one.registry.service? s = none ∧ two.registry.service? s = none) ∨
    ∃ label ∈ one.order, one.registry.service? s = some (one.service label) ∧
      two.registry.service? s = some (two.service label) := by
  rw [registry_service,registry_service,first_same same distinct]
  cases first : first? one.name one.order s with
  | none => exact .inl ⟨rfl,rfl⟩
  | some label => exact .inr ⟨label,(first?_some first).1,rfl,rfl⟩

theorem compiles_rearranged (compiles : ∃ h, one.registry.newHandler = .ok h) :
    ∃ h, two.registry.newHandler = .ok h := by
  obtain ⟨⟨s,service,held⟩,sound⟩ := (compiles_exact one).mp compiles
  refine (compiles_exact two).mpr ⟨?_,fun s service held => ?_⟩
  · rcases service_same same distinct s with ⟨absent,_⟩ | ⟨label,_,_,there⟩
    · cases absent.symm.trans held
    · exact ⟨s,_,there⟩
  · rcases service_same same distinct s with ⟨_,absent⟩ | ⟨label,member,here,there⟩
    · cases absent.symm.trans held
    · cases there.symm.trans held
      refine sound_of_alike (service_coherent one label) (service_coherent two label)
        (operation_same same distinct member) (fun e promised => ?_) (sound s _ here)
      rw [service_definition] at promised ⊢
      exact reworded_promise (same.begun label) promised

theorem resolve_rearranged {h k : Handler} (left : one.registry.newHandler = .ok h)
    (right : two.registry.newHandler = .ok k) (s o : String) : h.resolve s o = k.resolve s o := by
  obtain ⟨_,_,rfl⟩ := (newHandler_ok (registry_agreeing one) h).mp left
  obtain ⟨_,_,rfl⟩ := (newHandler_ok (registry_agreeing two) k).mp right
  apply resolve_of_lookups
  change (one.registry.service? s).map _ = (two.registry.service? s).map _
  rcases service_same same distinct s with ⟨here,there⟩ | ⟨label,member,here,there⟩
  · rw [here,there]
  · rw [here,there,Option.map_some,Option.map_some,operation_same same distinct member]

end Pair

end Runs

theorem rearrangement_exact {ι : Type} [DecidableEq ι] (one two : Run ι) (same : Rearranged one two)
    (distinct : one.Distinct) :
    (one.Succeeds ↔ two.Succeeds) ∧
    ((∃ h, one.registry.newHandler = .ok h) ↔ ∃ k, two.registry.newHandler = .ok k) ∧
    ∀ h k, one.registry.newHandler = .ok h → two.registry.newHandler = .ok k → ∀ s o,
      h.resolve s o = k.resolve s o ∧
      ∀ input options, h.start s o input options = k.start s o input options := by
  have back : Rearranged two one := rearranged_symm same
  refine ⟨⟨succeeds_rearranged same,succeeds_rearranged back⟩,⟨compiles_rearranged same distinct,?_⟩,?_⟩
  · exact compiles_rearranged back (rearranged_distinct same distinct)
  · intro h k left right s o
    have resolved := resolve_rearranged same distinct left right s o
    refine ⟨resolved,fun input options => ?_⟩
    unfold Handler.start
    rw [resolved]

def doubling : OperationDescriptor := ⟨"double",Catalogue.i64,Catalogue.i64⟩

def summing : OperationDescriptor := ⟨"sum",.list Catalogue.i64,Catalogue.i64⟩

def forth : Run Bool where
  begun := fun label => if label then .promised ⟨"Math",[doubling,summing]⟩ else .named "Text"
  turns := [(true,.sync "double" _ _ Readymade.double),(false,.sync "echo" _ _ Readymade.echo),
    (true,.sync "sum" _ _ Readymade.sum)]
  order := [true,false]

def back : Run Bool where
  begun := fun label => if label then .promised ⟨"Math",[summing,doubling]⟩ else .named "Text"
  turns := [(false,.sync "echo" _ _ Readymade.echo),(true,.sync "sum" _ _ Readymade.sum),
    (true,.sync "double" _ _ Readymade.double)]
  order := [false,true]

theorem swapped_registrations_resolved_alike :
    Rearranged forth back ∧ forth.Distinct ∧ back.Succeeds ∧
    (∃ h k, forth.registry.newHandler = .ok h ∧ back.registry.newHandler = .ok k ∧
      h.resolve "Math" "sum" = .ok (.sync "sum" _ _ Readymade.sum) ∧
      k.resolve "Math" "sum" = .ok (.sync "sum" _ _ Readymade.sum)) ∧
    forth.registry.serviceNames ≠ back.registry.serviceNames ∧
    ({ forth with turns := [] } : Run Bool).registry.newHandler = .error (.emptyService "Math") ∧
    ({ back with turns := [] } : Run Bool).registry.newHandler = .error (.emptyService "Text") := by
  have same : Rearranged forth back := by
    refine ⟨fun label => ?_,fun label => ?_,.swap _ _ _⟩
    · cases label with
      | true => exact .promised rfl (.swap _ _ _)
      | false => exact .named "Text"
    · cases label with
      | true => exact .swap _ _ _
      | false => exact .refl _
  have distinct : forth.Distinct := by
    refine ⟨by decide,fun label _ => ?_⟩
    cases label with
    | true => decide
    | false => decide
  have taken : forth.Succeeds := by
    refine ⟨(turns_taken forth).mpr fun label => ?_,(services_taken forth).mpr (by decide)⟩
    cases label with
    | true => decide
    | false => decide
  obtain ⟨succeeds,compiles,dispatch⟩ := rearrangement_exact forth back same distinct
  obtain ⟨k,compiled⟩ := compiles.mp ⟨_,rfl⟩
  refine ⟨same,distinct,succeeds.mp taken,⟨_,k,rfl,compiled,rfl,?_⟩,by decide,rfl,rfl⟩
  rw [← (dispatch _ k rfl compiled "Math" "sum").1]
  rfl

end Switchboard.Rearrangement
