import Switchboard.Schema.Name
import Switchboard.Text.Quoted

namespace Switchboard

-- A definition may say the same name twice.

structure OperationDescriptor where
  name : String
  input : Ty
  output : Ty
deriving DecidableEq

def OperationDescriptor.shown (d : OperationDescriptor) : String :=
  Text.braced "OperationDescriptor"
    [("name",Text.quoted d.name),("input",d.input.typeName),("output",d.output.typeName)]

def OperationDescriptor.shownTyped (d : OperationDescriptor) : String :=
  Text.braced "OperationDefinition"
    [("name",Text.quoted d.name),("input",Text.quoted d.input.typeName),
      ("output",Text.quoted d.output.typeName)]

structure ServiceDefinition where
  name : String
  operations : List OperationDescriptor
deriving DecidableEq

namespace ServiceDefinition

def find? (d : ServiceDefinition) (name : String) : Option OperationDescriptor :=
  d.operations.find? (fun op => op.name == name)

def shown (d : ServiceDefinition) : String :=
  Text.braced "ServiceDefinition"
    [("name",Text.quoted d.name),
      ("operations",Text.bracketed (d.operations.map OperationDescriptor.shown))]

end ServiceDefinition
end Switchboard
