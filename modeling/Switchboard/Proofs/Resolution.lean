import Switchboard.Operation.Readymade
import Switchboard.Proofs.Registration

namespace Switchboard.Resolution
open Registration

inductive Beginning where
  | named (name : String)
  | promised (definition : ServiceDefinition)

def Beginning.service : Beginning → Service
  | .named name => .named name
  | .promised definition => .ofDefinition definition

theorem begun_operations (begun : Beginning) : begun.service.operations = .empty := by
  cases begun with
  | named name => rfl
  | promised definition => rfl

-- Labels tell the services in the making apart. They are no names: any number of services
-- may be made under one name, and any number of attempts on them may take turns.
section Making

variable {ι : Type} [DecidableEq ι]

def attemptOn (making : ι → Service) (turn : ι × Operation) : ι → Service :=
  fun label => if label = turn.1 then (making label).attempt turn.2 else making label

def made (begun : ι → Beginning) (turns : List (ι × Operation)) : ι → Service :=
  turns.foldl attemptOn (fun label => (begun label).service)

def handedOver (services : ι → Service) (order : List ι) : Registry :=
  order.foldl (fun r label => r.attempt (services label)) .empty

def attemptedOn (label : ι) (turns : List (ι × Operation)) : List Operation :=
  (turns.filter (fun turn => turn.1 = label)).map Prod.snd

theorem attempted_turns (making : ι → Service) (turns : List (ι × Operation)) (label : ι) :
    turns.foldl attemptOn making label =
      (attemptedOn label turns).foldl Service.attempt (making label) := by
  induction turns generalizing making with
  | nil => rfl
  | cons turn rest ih =>
      rw [List.foldl_cons,ih]
      by_cases own : turn.1 = label
      · simp [attemptedOn,attemptOn,own]
      · simp [attemptedOn,attemptOn,own,Ne.symm own]

theorem made_name (begun : ι → Beginning) (turns : List (ι × Operation)) (label : ι) :
    (made begun turns label).name = (begun label).service.name := by
  rw [made,attempted_turns,service_attempts]

theorem made_operation (begun : ι → Beginning) (turns : List (ι × Operation)) (label : ι)
    (o : String) :
    (made begun turns label).operation? o = first? Operation.name (attemptedOn label turns) o := by
  rw [made,attempted_turns,service_attempts,Service.operation?,find?_enrolled,begun_operations]
  rfl

theorem made_names (begun : ι → Beginning) (turns : List (ι × Operation)) (label : ι) :
    (made begun turns label).operationNames =
      (validNames Operation.name (attemptedOn label turns)).eraseDups := by
  rw [made,attempted_turns,service_attempts,begun_operations]
  exact rolled_order Operation.name _

theorem made_coherent (begun : ι → Beginning) (turns : List (ι × Operation)) (label : ι) :
    Coherent (made begun turns label).operations := by
  rw [made,attempted_turns,service_attempts,begun_operations]
  exact empty_coherent.run Operation.name _

theorem handedOver_attempts {κ : Type} (services : κ → Service) (order : List κ) :
    handedOver services order = ⟨(order.map services).foldl (enrol Service.name) .empty⟩ := by
  rw [handedOver,← List.foldl_map,registry_attempts]
  rfl

theorem handedOver_service (begun : ι → Beginning) (turns : List (ι × Operation)) (order : List ι)
    (s : String) :
    (handedOver (made begun turns) order).service? s =
      (first? (fun label => (begun label).service.name) order s).map (made begun turns) := by
  have bare : (Store.empty : Store Service).find? s = none := rfl
  rw [handedOver_attempts,Registry.service?,find?_enrolled,bare,Option.none_or,first?,first?,
    List.find?_map]
  simp only [Function.comp_def,made_name]

theorem handedOver_found {begun : ι → Beginning} {turns : List (ι × Operation)} {order : List ι}
    {s : String} {service : Service} (held : (handedOver (made begun turns) order).service? s = some service) :
    ∃ label ∈ order, made begun turns label = service := by
  rw [handedOver_service] at held
  obtain ⟨label,first,same⟩ := Option.map_eq_some_iff.mp held
  exact ⟨label,(first?_some first).1,same⟩

theorem handedOver_names (begun : ι → Beginning) (turns : List (ι × Operation)) (order : List ι) :
    (handedOver (made begun turns) order).serviceNames =
      (validNames (fun label => (begun label).service.name) order).eraseDups := by
  rw [handedOver_attempts,Registry.serviceNames,rolled_order]
  simp only [validNames,List.map_map,Function.comp_def,made_name]

theorem handedOver_agreeing (begun : ι → Beginning) (turns : List (ι × Operation)) (order : List ι) :
    Agreeing (handedOver (made begun turns) order) := by
  have grows : ∀ r, Agreeing r →
      Agreeing (order.foldl (fun r label => r.attempt (made begun turns label)) r) := by
    induction order with
    | nil => exact fun r agreeing => agreeing
    | cons label rest ih =>
        intro r agreeing
        exact ih _ (agreeing.step (made_coherent begun turns label))
  exact grows .empty empty_agreeing

end Making

theorem newHandler_services {r : Registry} {h : Handler} (compiled : r.newHandler = .ok h) :
    h.services = r.services.held := by
  unfold Registry.newHandler at compiled
  split at compiled
  · cases compiled
  · split at compiled
    · cases compiled
    · cases compiled; rfl

theorem resolve_cases (h : Handler) (s o : String) :
    (h.service? s = none ∧ h.operation? s o = none ∧
      h.resolve s o = .error ⟨.service,s,o⟩) ∨
    (∃ service, h.service? s = some service ∧ service.operation? o = none ∧
      h.operation? s o = none ∧ h.resolve s o = .error ⟨.operation,s,o⟩) ∨
    ∃ service op, h.service? s = some service ∧ service.operation? o = some op ∧
      h.operation? s o = some op ∧ h.resolve s o = .ok op := by
  unfold Handler.resolve Handler.operation?
  cases held : h.service? s with
  | none => simp
  | some service =>
      cases found : service.operation? o with
      | none => simp [found]
      | some op => simp [found]

-- Refused attempts are part of the histories; nothing is assumed of them.
theorem resolution_exact {ι : Type} [DecidableEq ι] (begun : ι → Beginning)
    (turns : List (ι × Operation)) (order : List ι) (h : Handler)
    (compiled : (handedOver (made begun turns) order).newHandler = .ok h) (s o : String) :
    let service? := first? (fun label => (begun label).service.name) order s
    let operation? := fun label => first? Operation.name (attemptedOn label turns) o
    (h.resolve s o = .error ⟨.service,s,o⟩ ↔ service? = none) ∧
    (h.resolve s o = .error ⟨.operation,s,o⟩ ↔
      ∃ label, service? = some label ∧ operation? label = none) ∧
    (∀ op, h.resolve s o = .ok op ↔ ∃ label, service? = some label ∧ operation? label = some op) ∧
    ∀ op, h.operation? s o = some op ↔ h.resolve s o = .ok op := by
  intro service? operation?
  have held : h.service? s = service?.map (made begun turns) := by
    rw [← handedOver_service,Handler.service?,newHandler_services compiled]
    rfl
  have operations : ∀ label, (made begun turns label).operation? o = operation? label :=
    fun label => made_operation begun turns label o
  cases found : service? with
  | none =>
      rcases resolve_cases h s o with ⟨_,nothing,missing⟩ | ⟨_,there,_⟩ | ⟨_,_,there,_⟩
      · simp [nothing,missing]
      · simp [held,found] at there
      · simp [held,found] at there
  | some label =>
      rcases resolve_cases h s o with ⟨gone,_⟩ | ⟨service,there,absent,nothing,missing⟩ |
        ⟨service,op,there,present,got,resolved⟩
      · simp [held,found] at gone
      · have same : made begun turns label = service := by simpa [held,found] using there
        rw [← same,operations] at absent
        simp [nothing,missing,absent]
      · have same : made begun turns label = service := by simpa [held,found] using there
        rw [← same,operations] at present
        simp [got,resolved,present]

def namesakes : Bool → Beginning := fun _ => .named "Text"

def rivals : List (Bool × Operation) :=
  [(true,.sync "echo" _ _ Readymade.length),(false,.sync " echo" _ _ Readymade.length),
    (false,.sync "echo" _ _ Readymade.echo),(false,.sync "echo" _ _ Readymade.length)]

theorem first_namesake_resolved_others_unknown :
    ∃ h, (handedOver (made namesakes rivals) [false,true]).newHandler = .ok h ∧
      h.resolve "Text" "echo" = .ok (.sync "echo" _ _ Readymade.echo) ∧
      h.resolve "Text" " echo" = .error ⟨.operation,"Text"," echo"⟩ ∧
      h.resolve "Math" "echo" = .error ⟨.service,"Math","echo"⟩ := by
  have exact := resolution_exact namesakes rivals [false,true] _ rfl
  refine ⟨_,rfl,?_,?_,?_⟩
  · exact ((exact "Text" "echo").2.2.1 _).mpr ⟨false,by decide,rfl⟩
  · exact (exact "Text" " echo").2.1.mpr ⟨false,by decide,rfl⟩
  · exact (exact "Math" "echo").1.mpr (by decide)

end Switchboard.Resolution
