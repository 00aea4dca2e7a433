import Switchboard.Input.LazyValue

namespace Switchboard

structure Polled (α : Type) where
  result : Option α
  polls : Nat
  drops : Nat

def Work.pollUpTo {α : Type} : Nat → Nat → Turn → Work α → Polled α
  | 0,polls,turn,_ => ⟨none,polls,turn.released.drops⟩
  | left + 1,polls,turn,work =>
    match work.advance turn with
    | (.finished a,turn) => ⟨some a,polls + 1,turn.released.drops⟩
    | (.blocked work,turn) => pollUpTo left (polls + 1) turn work

namespace LazyValue

def firstTurn (v : LazyValue) : Turn := ⟨fun _ => 0,false,v.isStreaming,0,0,[]⟩

def pollLimit : Nat := 256

def pollPayload (v : LazyValue) : Polled (Except SerializationError Payload) :=
  v.intoPayload.pollUpTo pollLimit 0 v.firstTurn

def pollConsume (v : LazyValue) (t : Ty) : Polled (Except SerializationError t.Value) :=
  (v.consume t).pollUpTo pollLimit 0 v.firstTurn

def dropped (v : LazyValue) : Nat := v.firstTurn.released.drops

end LazyValue
end Switchboard
