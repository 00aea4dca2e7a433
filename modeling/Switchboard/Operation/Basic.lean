import Switchboard.Input.LazyValue
import Switchboard.Operation.Result
import Switchboard.Registry.Definition

namespace Switchboard

structure Link where
  url : String
  type : String
deriving DecidableEq

structure StartOptions where
  requestId : String
  headers : Headers
  callbackUrl : Option String
  callbackHeaders : Headers
  links : List Link

structure OperationContext where
  service : String
  operation : String
  requestId : String
  headers : Headers

def OperationContext.ofCall (service operation : String) (options : StartOptions) : OperationContext :=
  ⟨service,operation,options.requestId,options.headers⟩

structure Operation where
  descriptor : OperationDescriptor
  start : OperationContext → LazyValue → StartOptions → Work Response

namespace Operation

def name (op : Operation) : String := op.descriptor.name

abbrev Function (input output : Ty) :=
  OperationContext → input.Value → StartOptions → Job (Except HandlerError output.Value)

def respond (output : Ty) : Except HandlerError output.Value → Response
  | .ok v => .ok (.sync (.of output v))
  | .error (.operation e) => .ok (.failed e)
  | .error e => .error (.handler e)

def sync (name : String) (input output : Ty) (function : Function input output) : Operation where
  descriptor := ⟨name,input,output⟩
  start context value options := do
    match ← value.consume input with
    | .error e => return .error (.serialization e)
    | .ok v =>
      let result ← Work.invoking (function context v options)
      return respond output result

end Operation
end Switchboard
