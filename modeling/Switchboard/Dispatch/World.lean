import Switchboard.Operation.Work

namespace Switchboard

structure Token where
  lineage : List Nat
deriving DecidableEq

structure World where
  tickets : String → Nat
  tokens : Nat
  cancelled : List Nat
  pools : List Nat
  drops : Nat
  invoked : Nat
  log : List LogEntry

namespace World

def empty : World := ⟨fun _ => 0,0,[],[],0,0,[]⟩

def logged (w : World) (entry : LogEntry) : World := { w with log := w.log ++ [entry] }

def loggedAll (w : World) (events : List Event) : World :=
  { w with log := w.log ++ events.map (fun event => .event event []) }

def newToken (w : World) (parent : Option Token) : Token × World :=
  (⟨w.tokens :: (parent.map Token.lineage).getD []⟩,{ w with tokens := w.tokens + 1 })

def isCancelled (w : World) (t : Token) : Bool := t.lineage.any w.cancelled.contains

def cancel (w : World) (t : Token) : World :=
  { w with cancelled := t.lineage.take 1 ++ w.cancelled }

def addTickets (w : World) (gate : String) (count : Nat) : World :=
  { w with tickets := fun g => if g = gate then w.tickets g + count else w.tickets g }

def newPool (w : World) (slots : Nat) : Nat × World :=
  (w.pools.length,{ w with pools := w.pools ++ [slots] })

def free (w : World) (pool : Nat) : Nat := w.pools.getD pool 0

def takeSlot (w : World) (pool : Nat) : World :=
  { w with pools := w.pools.set pool (w.free pool - 1) }

def returnSlot (w : World) (pool : Nat) : World :=
  { w with pools := w.pools.set pool (w.free pool + 1) }

end World
end Switchboard
