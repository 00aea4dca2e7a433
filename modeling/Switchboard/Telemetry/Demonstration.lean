import Switchboard.Dispatch.Call
import Switchboard.Operation.Readymade
import Switchboard.Registry.Basic
import Switchboard.Telemetry.Line

namespace Switchboard.Demonstration

structure Order where
  service : String
  operation : String
  contentType : String
  body : List UInt8
  slots : Nat

def registry : Registry :=
  let math := (Service.named "Math").attempt (.sync "double" _ _ Readymade.double)
  Registry.empty.attempt math

def request (number : Nat) (o : Order) : Request :=
  ⟨o.service,o.operation,.ofPayload .standard (.typed o.contentType o.body),
    ⟨"req-" ++ natText number,SortedMap.empty,none,SortedMap.empty,[]⟩⟩

def place (handler : Handler) (w : World) (numbered : Order × Nat) : World :=
  let (token,w) := w.newToken none
  let (pool,w) := w.newPool numbered.1.slots
  let (call,w) := Pipe.call ⟨handler,[.metrics,.shed pool]⟩ (request numbered.2 numbered.1) token w
  (call.run 1 0 w).2.2

def log (orders : List Order) : List LogEntry :=
  match registry.newHandler with
  | .error _ => []
  | .ok handler =>
    (orders.zipIdx.foldl (place handler) (World.empty.loggedAll registry.registrationEvents)).log

def lines (logging : Option Logging) (orders : List Order) : List Line :=
  match logging with
  | none => []
  | some logging => logging.lines (log orders)

end Switchboard.Demonstration
