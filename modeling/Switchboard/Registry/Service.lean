import Switchboard.Operation.Basic
import Switchboard.Registry.Error
import Switchboard.Registry.Store

namespace Switchboard

structure Service where
  name : String
  definition : Option ServiceDefinition
  operations : Store Operation

namespace Service

def named (name : String) : Service := ⟨name,none,.empty⟩

def ofDefinition (d : ServiceDefinition) : Service := ⟨d.name,some d,.empty⟩

def operationNames (s : Service) : List String := s.operations.order

def operation? (s : Service) (name : String) : Option Operation := s.operations.find? name

def size (s : Service) : Nat := s.operations.size

def refusal (s : Service) (name : String) : NameRefusal → ConfigurationError
  | .invalid fault => .invalidOperationName s.name name fault.reason
  | .duplicate => .duplicateOperation s.name name

def register (s : Service) (op : Operation) : Except ConfigurationError Unit × Service :=
  let (result,operations) := s.operations.register op.name op
  (result.mapError (s.refusal op.name),{ s with operations := operations })

def attempt (s : Service) (op : Operation) : Service := (s.register op).2

def checkDeclared (s : Service) (declared : OperationDescriptor) : Except ConfigurationError Unit :=
  match s.operation? declared.name with
  | none => .error (.missingOperation s.name declared.name)
  | some op =>
    let actual := op.descriptor
    if declared.input = actual.input && declared.output = actual.output then .ok ()
    else
      .error (.typeMismatch s.name declared.name declared.input declared.output actual.input
        actual.output)

def checkRegistered (s : Service) (d : ServiceDefinition) (name : String) :
    Except ConfigurationError Unit :=
  match d.find? name with
  | some _ => .ok ()
  | none => .error (.undeclaredOperation s.name name)

def checkAll {α : Type} (check : α → Except ConfigurationError Unit) :
    List α → Except ConfigurationError Unit
  | [] => .ok ()
  | a :: rest =>
    match check a with
    | .ok () => checkAll check rest
    | .error e => .error e

def validate (s : Service) : Except ConfigurationError Unit :=
  if s.size = 0 then .error (.emptyService s.name)
  else
    match s.definition with
    | none => .ok ()
    | some d =>
      match checkAll s.checkDeclared d.operations with
      | .error e => .error e
      | .ok () => checkAll (s.checkRegistered d) s.operationNames

def shown (s : Service) : String :=
  Text.braced "Service"
    [("name",Text.quoted s.name),
      ("operations",Text.bracketed (s.operationNames.map Text.quoted)),
      ("has_definition",if s.definition.isSome then "true" else "false")]

end Service
end Switchboard
