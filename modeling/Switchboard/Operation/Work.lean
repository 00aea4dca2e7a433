import Switchboard.Input.Reader
import Switchboard.Operation.Job
import Switchboard.Telemetry.Event

namespace Switchboard

-- A step names what it needs from outside. Where that is not there, the same step is tried
-- again later.

inductive Work (α : Type) where
  | done (result : α)
  | log (event : Event) (next : Work α)
  | invoke (next : Work α)
  | drain (reader : Reader) (next : Except String (List UInt8) → Work α)
  | ticket (gate : String) (next : Work α)
  | cancellation (next : Work α)
  | isCancelled (next : Bool → Work α)

namespace Work

def bind {α β : Type} (work : Work α) (f : α → Work β) : Work β :=
  match work with
  | .done a => f a
  | .log event next => .log event (next.bind f)
  | .invoke next => .invoke (next.bind f)
  | .drain reader next => .drain reader (fun result => (next result).bind f)
  | .ticket gate next => .ticket gate (next.bind f)
  | .cancellation next => .cancellation (next.bind f)
  | .isCancelled next => .isCancelled (fun answer => (next answer).bind f)

instance : Monad Work where
  pure := .done
  bind := Work.bind

def tell (event : Event) : Work Unit := .log event (.done ())

def readAll (reader : Reader) : Work (Except String (List UInt8)) := .drain reader .done

def ofJob {α : Type} : Job α → Work α
  | .done a => .done a
  | .ticket gate next => .ticket gate (ofJob next)
  | .cancellation next => .cancellation (ofJob next)
  | .isCancelled next => .isCancelled (fun answer => ofJob (next answer))

def invoking {α : Type} (job : Job α) : Work α := .invoke (ofJob job)

end Work

structure Turn where
  tickets : String → Nat
  cancelled : Bool
  holdsReader : Bool
  drops : Nat
  invoked : Nat
  events : List Event

inductive Progress (α : Type) where
  | blocked (work : Work α)
  | finished (result : α)

namespace Turn

def logged (turn : Turn) (event : Event) : Turn := { turn with events := turn.events ++ [event] }

def released (turn : Turn) : Turn :=
  if turn.holdsReader then { turn with holdsReader := false,drops := turn.drops + 1 } else turn

def invocation (turn : Turn) : Turn := { turn with invoked := turn.invoked + 1 }

def withoutTicket (turn : Turn) (gate : String) : Turn :=
  { turn with tickets := fun g => if g = gate then turn.tickets g - 1 else turn.tickets g }

end Turn

def Work.advance {α : Type} (turn : Turn) : Work α → Progress α × Turn
  | .done a => (.finished a,turn)
  | .log event next => next.advance (turn.logged event)
  | .invoke next => next.advance turn.invocation
  | .drain reader next =>
    match reader.poll with
    | .blocked reader => (.blocked (.drain reader next),turn)
    | .ready result => (next result).advance turn.released
  | .ticket gate next =>
    if 0 < turn.tickets gate then next.advance (turn.withoutTicket gate)
    else (.blocked (.ticket gate next),turn)
  | .cancellation next =>
    if turn.cancelled then next.advance turn else (.blocked (.cancellation next),turn)
  | .isCancelled next => (next turn.cancelled).advance turn

end Switchboard
