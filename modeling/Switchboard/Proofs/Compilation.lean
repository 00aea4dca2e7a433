import Switchboard.Proofs.Resolution

namespace Switchboard.Compilation
open Registration Resolution

inductive FirstBreach {α : Type} (Keeps : α → Prop) : List α → α → Prop where
  | here {a : α} {rest : List α} (breach : ¬ Keeps a) : FirstBreach Keeps (a :: rest) a
  | later {a b : α} {rest : List α} (kept : Keeps b) (first : FirstBreach Keeps rest a) :
      FirstBreach Keeps (b :: rest) a

def Declares (d : ServiceDefinition) (name : String) : Prop :=
  ∃ declared ∈ d.operations, declared.name = name

def Meets (s : Service) (declared : OperationDescriptor) : Prop :=
  ∃ op, s.operation? declared.name = some op ∧ op.descriptor.input = declared.input ∧
    op.descriptor.output = declared.output

-- One name may be declared several times, and then every declaration has to be met.
structure Fulfils (s : Service) (d : ServiceDefinition) : Prop where
  names : ∀ name, Declares d name ↔ name ∈ s.operationNames
  types : ∀ declared ∈ d.operations, Meets s declared

structure Sound (s : Service) : Prop where
  inhabited : s.operationNames ≠ []
  promise : ∀ d, s.definition = some d → Fulfils s d

-- Each rule says that those before it had nothing to report, so no service has two faults.
inductive Fault (s : Service) : ConfigurationError → Prop where
  | empty (bare : s.operationNames = []) : Fault s (.emptyService s.name)
  | missing {d : ServiceDefinition} {declared : OperationDescriptor} (inhabited : s.operationNames ≠ [])
      (promised : s.definition = some d) (first : FirstBreach (Meets s) d.operations declared)
      (absent : s.operation? declared.name = none) :
      Fault s (.missingOperation s.name declared.name)
  | mismatch {d : ServiceDefinition} {declared : OperationDescriptor} {op : Operation}
      (inhabited : s.operationNames ≠ []) (promised : s.definition = some d)
      (first : FirstBreach (Meets s) d.operations declared)
      (present : s.operation? declared.name = some op) :
      Fault s (.typeMismatch s.name declared.name declared.input declared.output
        op.descriptor.input op.descriptor.output)
  | undeclared {d : ServiceDefinition} {name : String} (inhabited : s.operationNames ≠ [])
      (promised : s.definition = some d) (met : ∀ declared ∈ d.operations, Meets s declared)
      (first : FirstBreach (Declares d) s.operationNames name) :
      Fault s (.undeclaredOperation s.name name)

def Passes (r : Registry) (name : String) : Prop :=
  ∀ service, r.service? name = some service → Sound service

inductive Refused (r : Registry) : ConfigurationError → Prop where
  | empty (bare : r.serviceNames = []) : Refused r .emptyRegistry
  | service {name : String} {service : Service} {e : ConfigurationError}
      (first : FirstBreach (Passes r) r.serviceNames name) (held : r.service? name = some service)
      (fault : Fault service e) : Refused r e

theorem breach_breaks {α : Type} {Keeps : α → Prop} {items : List α} {a : α}
    (first : FirstBreach Keeps items a) : a ∈ items ∧ ¬ Keeps a := by
  induction first with
  | here breach => exact ⟨List.mem_cons_self,breach⟩
  | later _ _ ih => exact ⟨List.mem_cons_of_mem _ ih.1,ih.2⟩

section Scan

variable {α : Type} {check : α → Except ConfigurationError Unit} {Keeps : α → Prop}

theorem checkAll_ok (exact : ∀ a, check a = .ok () ↔ Keeps a) (items : List α) :
    Service.checkAll check items = .ok () ↔ ∀ a ∈ items, Keeps a := by
  induction items with
  | nil => simp [Service.checkAll]
  | cons a rest ih =>
      unfold Service.checkAll
      cases checked : check a with
      | ok => simpa [(exact a).mp checked] using ih
      | error e =>
          have breach : ¬ Keeps a := fun kept => by simp [(exact a).mpr kept] at checked
          simp [breach]

theorem checkAll_error (exact : ∀ a, check a = .ok () ↔ Keeps a) (items : List α)
    (e : ConfigurationError) :
    Service.checkAll check items = .error e ↔ ∃ a, FirstBreach Keeps items a ∧ check a = .error e := by
  induction items with
  | nil =>
      constructor
      · intro refused; cases refused
      · rintro ⟨a,first,_⟩; cases first
  | cons b rest ih =>
      unfold Service.checkAll
      cases checked : check b with
      | ok =>
          have kept := (exact b).mp checked
          constructor
          · intro refused
            obtain ⟨a,first,reported⟩ := ih.mp refused
            exact ⟨a,.later kept first,reported⟩
          · rintro ⟨a,first,reported⟩
            cases first with
            | here breach => exact absurd kept breach
            | later _ first => exact ih.mpr ⟨a,first,reported⟩
      | error earlier =>
          have breach : ¬ Keeps b := fun kept => by simp [(exact b).mpr kept] at checked
          constructor
          · intro refused; exact ⟨b,.here breach,checked.trans refused⟩
          · rintro ⟨a,first,reported⟩
            cases first with
            | here => exact checked.symm.trans reported
            | later kept _ => exact absurd kept breach

end Scan

section Declarations

variable (s : Service) (d : ServiceDefinition)

theorem checkDeclared_ok (declared : OperationDescriptor) :
    s.checkDeclared declared = .ok () ↔ Meets s declared := by
  unfold Service.checkDeclared Meets
  cases found : s.operation? declared.name with
  | none => simp
  | some op =>
      simp only [Bool.and_eq_true,decide_eq_true_eq,Option.some.injEq,exists_eq_left']
      rw [eq_comm (b := declared.input),eq_comm (b := declared.output)]
      split <;> simp [*]

theorem checkDeclared_error {declared : OperationDescriptor} (breach : ¬ Meets s declared)
    (e : ConfigurationError) :
    s.checkDeclared declared = .error e ↔
      (s.operation? declared.name = none ∧ e = .missingOperation s.name declared.name) ∨
      ∃ op, s.operation? declared.name = some op ∧
        e = .typeMismatch s.name declared.name declared.input declared.output
          op.descriptor.input op.descriptor.output := by
  rw [← checkDeclared_ok] at breach
  unfold Service.checkDeclared at breach ⊢
  cases found : s.operation? declared.name with
  | none => simp [eq_comm]
  | some op =>
      simp only [found] at breach ⊢
      split
      · rename_i agree; exact absurd (if_pos agree) breach
      · simp [eq_comm]

theorem checkRegistered_ok (name : String) : s.checkRegistered d name = .ok () ↔ Declares d name := by
  have found : (d.find? name).isSome ↔ Declares d name := by
    simp [ServiceDefinition.find?,Declares]
  rw [← found]
  unfold Service.checkRegistered
  cases d.find? name with
  | none => simp
  | some declared => simp

theorem checkRegistered_error {name : String} (breach : ¬ Declares d name) (e : ConfigurationError) :
    s.checkRegistered d name = .error e ↔ e = .undeclaredOperation s.name name := by
  rw [← checkRegistered_ok s] at breach
  unfold Service.checkRegistered at breach ⊢
  cases found : d.find? name with
  | none => simp [eq_comm]
  | some declared => simp [found] at breach

-- Declarations that are met are registered, so it is enough to look for names beyond them.
theorem fulfils_exact (coherent : Coherent s.operations) :
    Fulfils s d ↔ (∀ declared ∈ d.operations, Meets s declared) ∧
      ∀ name ∈ s.operationNames, Declares d name := by
  constructor
  · intro fulfils
    exact ⟨fulfils.types,fun name member => (fulfils.names name).mpr member⟩
  · rintro ⟨met,declared⟩
    refine ⟨fun name => ⟨?_,declared name⟩,met⟩
    rintro ⟨descriptor,member,rfl⟩
    obtain ⟨op,found,_⟩ := met descriptor member
    exact (coherent.listed _).mpr ⟨op,found⟩

end Declarations

theorem sound_promised {s : Service} {d : ServiceDefinition} (inhabited : s.operationNames ≠ [])
    (promised : s.definition = some d) : Sound s ↔ Fulfils s d := by
  constructor
  · intro sound; exact sound.promise d promised
  · intro fulfils
    refine ⟨inhabited,fun other same => ?_⟩
    cases promised.symm.trans same
    exact fulfils

theorem validate_ok {s : Service} (coherent : Coherent s.operations) : s.validate = .ok () ↔ Sound s := by
  unfold Service.validate
  split
  · rename_i bare
    constructor
    · intro accepted; cases accepted
    · intro sound; exact absurd (coherent.bare.mp bare) sound.inhabited
  · rename_i held
    have inhabited : s.operationNames ≠ [] := fun bare => held (coherent.bare.mpr bare)
    split
    · rename_i unpromised
      exact ⟨fun _ => ⟨inhabited,fun d promised => by simp [unpromised] at promised⟩,fun _ => rfl⟩
    · rename_i d promised
      rw [sound_promised inhabited promised,fulfils_exact s d coherent,← checkAll_ok (checkDeclared_ok s),
        ← checkAll_ok (checkRegistered_ok s d)]
      split
      · rename_i refused; simp [refused]
      · rename_i accepted; simp [accepted]

-- The scan of the declarations comes before the scan of the names beyond them.
theorem promise_error {s : Service} {d : ServiceDefinition} (inhabited : s.operationNames ≠ [])
    (promised : s.definition = some d) (e : ConfigurationError) :
    Fault s e ↔ Service.checkAll s.checkDeclared d.operations = .error e ∨
      (Service.checkAll s.checkDeclared d.operations = .ok () ∧
        Service.checkAll (s.checkRegistered d) s.operationNames = .error e) := by
  rw [checkAll_error (checkDeclared_ok s),checkAll_ok (checkDeclared_ok s),
    checkAll_error (checkRegistered_ok s d)]
  constructor
  · intro fault
    cases fault with
    | empty bare => exact absurd bare inhabited
    | missing _ other first absent =>
        cases promised.symm.trans other
        exact .inl ⟨_,first,(checkDeclared_error s (breach_breaks first).2 _).mpr (.inl ⟨absent,rfl⟩)⟩
    | mismatch _ other first present =>
        cases promised.symm.trans other
        exact .inl ⟨_,first,(checkDeclared_error s (breach_breaks first).2 _).mpr (.inr ⟨_,present,rfl⟩)⟩
    | undeclared _ other met first =>
        cases promised.symm.trans other
        exact .inr ⟨met,_,first,(checkRegistered_error s d (breach_breaks first).2 _).mpr rfl⟩
  · rintro (⟨declared,first,reported⟩ | ⟨met,name,first,reported⟩)
    · rcases (checkDeclared_error s (breach_breaks first).2 e).mp reported with ⟨absent,rfl⟩ | ⟨op,present,rfl⟩
      · exact .missing inhabited promised first absent
      · exact .mismatch inhabited promised first present
    · cases (checkRegistered_error s d (breach_breaks first).2 e).mp reported
      exact .undeclared inhabited promised met first

theorem validate_error {s : Service} (coherent : Coherent s.operations) (e : ConfigurationError) :
    s.validate = .error e ↔ Fault s e := by
  unfold Service.validate
  split
  · rename_i none
    have bare : s.operationNames = [] := coherent.bare.mp none
    constructor
    · intro refused; cases refused; exact .empty bare
    · intro fault
      cases fault with
      | empty => rfl
      | missing inhabited | mismatch inhabited | undeclared inhabited => exact absurd bare inhabited
  · rename_i held
    have inhabited : s.operationNames ≠ [] := fun bare => held (coherent.bare.mpr bare)
    split
    · rename_i unpromised
      constructor
      · intro refused; cases refused
      · intro fault
        cases fault with
        | empty bare => exact absurd bare inhabited
        | missing _ promised | mismatch _ promised | undeclared _ promised => simp [unpromised] at promised
    · rename_i d promised
      rw [promise_error inhabited promised]
      split
      · rename_i refused; simp [refused]
      · rename_i accepted; simp [accepted]

section Handler

variable {r : Registry} (agreeing : Agreeing r)

include agreeing

theorem checkNamed_ok (name : String) : r.checkNamed name = .ok () ↔ Passes r name := by
  unfold Registry.checkNamed Passes
  cases held : r.service? name with
  | none => simp
  | some service => simp [validate_ok (agreeing.operations name service held)]

theorem checkNamed_error (name : String) (e : ConfigurationError) :
    r.checkNamed name = .error e ↔ ∃ service, r.service? name = some service ∧ Fault service e := by
  unfold Registry.checkNamed
  cases held : r.service? name with
  | none => simp
  | some service => simp [validate_error (agreeing.operations name service held)]

-- No service is passed over: all that are held are listed.
theorem all_pass :
    (∀ name ∈ r.serviceNames, Passes r name) ↔
      ∀ s service, r.service? s = some service → Sound service := by
  constructor
  · intro pass s service held
    exact pass s ((agreeing.services.listed s).mpr ⟨service,held⟩) service held
  · intro sound name _
    exact sound name

theorem newHandler_ok (h : Handler) :
    r.newHandler = .ok h ↔ r.serviceNames ≠ [] ∧
      (∀ s service, r.service? s = some service → Sound service) ∧ h = ⟨r.services.held⟩ := by
  have bare : r.size = 0 ↔ r.serviceNames = [] := agreeing.services.bare
  rw [← all_pass agreeing,← checkAll_ok (checkNamed_ok agreeing),ne_eq,← bare]
  unfold Registry.newHandler
  by_cases none : r.size = 0
  · simp [none]
  · cases Service.checkAll r.checkNamed r.serviceNames with
    | ok => simp [none,eq_comm (a := h)]
    | error e => simp [none]

theorem newHandler_error (e : ConfigurationError) : r.newHandler = .error e ↔ Refused r e := by
  have bare : r.size = 0 ↔ r.serviceNames = [] := agreeing.services.bare
  have scanned := checkAll_error (checkNamed_ok agreeing) r.serviceNames e
  unfold Registry.newHandler
  split
  · rename_i none
    constructor
    · intro reported; cases reported; exact .empty (bare.mp none)
    · intro refused
      cases refused with
      | empty => rfl
      | service first => rw [bare.mp none] at first; cases first
  · rename_i some
    have reported : Refused r e ↔ Service.checkAll r.checkNamed r.serviceNames = .error e := by
      rw [scanned]
      constructor
      · intro refused
        cases refused with
        | empty none => exact absurd (bare.mpr none) some
        | service first held fault => exact ⟨_,first,(checkNamed_error agreeing _ e).mpr ⟨_,held,fault⟩⟩
      · rintro ⟨name,first,reported⟩
        obtain ⟨service,held,fault⟩ := (checkNamed_error agreeing name e).mp reported
        exact .service first held fault
    rw [reported]
    cases Service.checkAll r.checkNamed r.serviceNames with
    | ok => simp
    | error other => simp

end Handler

-- Of several offenders, the order in which their names were first attempted decides.
theorem newHandler_exact {ι : Type} [DecidableEq ι] (begun : ι → Beginning)
    (turns : List (ι × Operation)) (order : List ι) :
    let r := handedOver (made begun turns) order
    r.serviceNames = (validNames (fun label => (begun label).service.name) order).eraseDups ∧
    (∀ s service, r.service? s = some service →
      ∃ label ∈ order, service = made begun turns label ∧
        service.operationNames = (validNames Operation.name (attemptedOn label turns)).eraseDups) ∧
    ((∃ h, r.newHandler = .ok h) ↔
      r.serviceNames ≠ [] ∧ ∀ s service, r.service? s = some service → Sound service) ∧
    ∀ e, r.newHandler = .error e ↔ Refused r e := by
  intro r
  have agreeing : Agreeing r := handedOver_agreeing begun turns order
  refine ⟨handedOver_names begun turns order,fun s service held => ?_,?_,newHandler_error agreeing⟩
  · obtain ⟨label,member,rfl⟩ := handedOver_found held
    exact ⟨label,member,rfl,made_names begun turns label⟩
  · simp only [newHandler_ok agreeing,← and_assoc,exists_and_left,exists_eq,and_true]

end Switchboard.Compilation
