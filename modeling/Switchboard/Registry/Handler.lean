import Switchboard.Registry.Service

namespace Switchboard

structure Handler where
  services : Named Service

namespace Handler

def service? (h : Handler) (name : String) : Option Service := h.services.find? name

def operation? (h : Handler) (service operation : String) : Option Operation :=
  (h.service? service).bind (fun s => s.operation? operation)

def resolve (h : Handler) (service operation : String) : Except NotFound Operation :=
  match h.service? service with
  | none => .error ⟨.service,service,operation⟩
  | some s =>
    match s.operation? operation with
    | none => .error ⟨.operation,service,operation⟩
    | some op => .ok op

def shown (h : Handler) : String :=
  Text.braced "Handler" [("services",Text.bracketed (h.services.entries.map (fun entry => entry.2.shown)))]

end Handler

def NotFound.event (e : NotFound) : Event :=
  match e.missing with
  | .service => .serviceNotFound e.service e.operation
  | .operation => .operationNotFound e.service e.operation

def Handler.start (h : Handler) (service operation : String) (input : LazyValue)
    (options : StartOptions) : Work Response :=
  match h.resolve service operation with
  | .error e => do
    Work.tell e.event
    return .error (.notFound e)
  | .ok op => do
    Work.tell (.dispatching service operation options.requestId input.contentType)
    op.start (.ofCall service operation options) input options

end Switchboard
