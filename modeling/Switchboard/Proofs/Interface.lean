import Switchboard.Proofs.Carrying
import Switchboard.Proofs.Compilation
import Switchboard.Proofs.Dispatching

namespace Switchboard.Interface
open Carrying Compilation Dispatching Polling Registration Resolution

-- Whatever a handler holds goes back to a registration of its history.
section Provenance

variable {ι : Type} [DecidableEq ι] {begun : ι → Beginning} {turns : List (ι × Operation)}
  {order : List ι} {h : Handler}

theorem mem_attemptedOn (label : ι) (op : Operation) :
    op ∈ attemptedOn label turns ↔ (label,op) ∈ turns := by
  simp [attemptedOn]

theorem operation_registered {label : ι} {o : String} {op : Operation}
    (found : (made begun turns label).operation? o = some op) : (label,op) ∈ turns ∧ op.name = o := by
  rw [made_operation] at found
  obtain ⟨member,same,_⟩ := first?_some found
  exact ⟨(mem_attemptedOn label op).mp member,same⟩

theorem service_registered (compiled : (handedOver (made begun turns) order).newHandler = .ok h)
    {s : String} {service : Service} (held : h.service? s = some service) :
    ∃ label ∈ order, made begun turns label = service := by
  rw [Handler.service?,newHandler_services compiled] at held
  exact handedOver_found held

theorem synchronous_run (compiled : (handedOver (made begun turns) order).newHandler = .ok h)
    (functions : ∀ turn ∈ turns, ∃ name i o function, turn.2 = .sync name i o function) :
    Synchronous h := by
  intro entry member op inside
  obtain ⟨label,_,same⟩ := service_registered compiled ((SortedMap.find?_text _ _ _).mpr member)
  have found : (made begun turns label).operation? op.1 = some op.2 := by
    rw [← same] at inside
    exact (SortedMap.find?_text _ _ _).mpr inside
  exact functions _ (operation_registered found).1

end Provenance

section Promise

variable {h : Handler} {s o : String} {service : Service} {op : Operation}

theorem resolve_held (held : h.service? s = some service) :
    h.resolve s o = .ok op ↔ service.operation? o = some op := by
  unfold Handler.resolve
  cases found : service.operation? o with
  | none => simp [held,found]
  | some other => simp [held,found]

theorem held_sound {r : Registry} (agreeing : Agreeing r) (compiled : r.newHandler = .ok h)
    (held : h.service? s = some service) : Sound service := by
  obtain ⟨_,sound,rfl⟩ := (newHandler_ok agreeing h).mp compiled
  exact sound s service held

-- A function cannot return anything but a value of the type that its operation shows.
theorem result_type (synchronous : Synchronous h) (found : h.resolve s o = .ok op) {input : LazyValue}
    {options : StartOptions} {polls : List Turn} {v : SyncValue}
    (answered : answerIn (h.start s o input options) polls = some (.ok (.sync v))) :
    ∃ y, v = .of op.descriptor.output y := by
  have ends := (answer_ends input options polls synchronous _).mp answered
  cases ends with
  | returned invoked ended =>
      obtain ⟨name,same⟩ := invoked.found
      cases found.symm.trans same
      exact ⟨_,rfl⟩

theorem value_of_type {v : SyncValue} {t : Ty} (wrapped : ∃ y, v = .of t y) :
    v.holds t = true ∧ v.typeName = t.typeName ∧ ∃ y, v.downcast t = .ok y := by
  obtain ⟨y,rfl⟩ := wrapped
  exact ⟨(holds_exact ⟨t,y⟩ t).mpr rfl,rfl,y,downcast_own (.of t y)⟩

end Promise

theorem interface_sound {ι : Type} [DecidableEq ι] (begun : ι → Beginning)
    (turns : List (ι × Operation)) (order : List ι) (h : Handler)
    (functions : ∀ turn ∈ turns, ∃ name i o function, turn.2 = .sync name i o function)
    (compiled : (handedOver (made begun turns) order).newHandler = .ok h)
    (s : String) (service : Service) (d : ServiceDefinition) (held : h.service? s = some service)
    (promised : service.definition = some d) (o : String) :
    (Declares d o ↔ ∃ op, h.resolve s o = .ok op) ∧
    ∀ declared ∈ d.operations, declared.name = o →
      ∃ op, h.resolve s o = .ok op ∧ op.descriptor = declared ∧
        ∀ input options polls v,
          answerIn (h.start s o input options) polls = some (.ok (.sync v)) →
            v.holds declared.output = true ∧ v.typeName = declared.output.typeName ∧
              ∃ y, v.downcast declared.output = .ok y := by
  have agreeing := handedOver_agreeing begun turns order
  have fulfils : Fulfils service d := (held_sound agreeing compiled held).promise d promised
  obtain ⟨label,_,rfl⟩ := service_registered compiled held
  constructor
  · have listed := (made_coherent begun turns label).listed o
    rw [fulfils.names o,Service.operationNames,listed]
    simp only [resolve_held held]
    rfl
  · rintro declared member rfl
    obtain ⟨op,found,takes,gives⟩ := fulfils.types declared member
    have named : op.descriptor.name = declared.name := (operation_registered found).2
    have resolved : h.resolve s declared.name = .ok op := (resolve_held held).mpr found
    refine ⟨op,resolved,?_,fun input options polls v answered => ?_⟩
    · calc op.descriptor
        _ = ⟨op.descriptor.name,op.descriptor.input,op.descriptor.output⟩ := rfl
        _ = ⟨declared.name,declared.input,declared.output⟩ := by rw [named,takes,gives]
    · rw [← gives]
      exact value_of_type (result_type (synchronous_run compiled functions) resolved answered)

-- It declares one operation twice.
def arithmetic : ServiceDefinition :=
  ⟨"Math",[⟨"double",Catalogue.i64,Catalogue.i64⟩,⟨"echo",.text,.text⟩,⟨"double",Catalogue.i64,Catalogue.i64⟩]⟩

-- The last one comes too late to change the type of the second.
def learned : List (Unit × Operation) :=
  [((),.sync "echo" _ _ Readymade.echo),((),.sync "double" _ _ Readymade.double),
    ((),.sync "double" _ _ Readymade.count)]

theorem promised_double_resolved_and_answered :
    ∃ h, (handedOver (made (fun _ => .promised arithmetic) learned) [()]).newHandler = .ok h ∧
      (∃ op, h.resolve "Math" "double" = .ok op ∧ op.descriptor = ⟨"double",Catalogue.i64,Catalogue.i64⟩) ∧
      (∀ op, h.resolve "Math" "half" ≠ .ok op) ∧
      answerIn (h.start "Math" "double" (.ofPayload .json (.untyped [0x32,0x31])) plainly) [moment false] =
        some (.ok (.sync (.of Catalogue.i64 (IntKind.nearest .i64 42)))) ∧
      ∀ input options polls v,
        answerIn (h.start "Math" "double" input options) polls = some (.ok (.sync v)) →
          ∃ y, v.downcast Catalogue.i64 = .ok y := by
  have functions : ∀ turn ∈ learned, ∃ name i o function, turn.2 = .sync name i o function := by
    simp only [learned,List.forall_mem_cons,List.not_mem_nil,false_imp_iff,implies_true,and_true]
    exact ⟨⟨_,_,_,_,rfl⟩,⟨_,_,_,_,rfl⟩,⟨_,_,_,_,rfl⟩⟩
  have sound := interface_sound (fun _ => .promised arithmetic) learned [()] _ functions rfl "Math" _ arithmetic rfl rfl
  obtain ⟨op,resolved,shape,typed⟩ := (sound "double").2 ⟨"double",Catalogue.i64,Catalogue.i64⟩ (by simp [arithmetic]) rfl
  refine ⟨_,rfl,⟨op,resolved,shape⟩,fun op found => ?_,rfl,fun input options polls v answered => ?_⟩
  · have declared : Declares arithmetic "half" := (sound "half").1.mpr ⟨op,found⟩
    simp [Declares,arithmetic] at declared
  · exact (typed input options polls v answered).2.2

end Switchboard.Interface
