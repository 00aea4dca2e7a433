import Switchboard.Operation.Error
import Switchboard.Schema.Name
import Switchboard.Serializer.Basic

namespace Switchboard

structure Erased where
  ty : Ty
  value : ty.Value

namespace Erased

def holds (e : Erased) (t : Ty) : Bool := e.ty = t

def view? (e : Erased) (t : Ty) : Option t.Value :=
  if same : e.ty = t then some (same ▸ e.value) else none

def takeOut (e : Erased) (t : Ty) : Except Erased t.Value :=
  match e.view? t with
  | some value => .ok value
  | none => .error e

def encodeAs (t : Ty) (e : Erased) (s : Serializer) : Except SerializationError Payload :=
  match e.view? t with
  | some value => s.toPayload t value
  | none => .error (.encode s.contentType (.text ("sync value is not a " ++ t.typeName)))

end Erased

-- The encoder and the name are fixed when the value is wrapped, and nothing but that ties them
-- to the value.
structure SyncValue where
  held : Erased
  encode : Erased → Serializer → Except SerializationError Payload
  typeName : String

namespace SyncValue

def of (t : Ty) (v : t.Value) : SyncValue := ⟨⟨t,v⟩,Erased.encodeAs t,t.typeName⟩

def holds (v : SyncValue) (t : Ty) : Bool := v.held.holds t

def view? (v : SyncValue) (t : Ty) : Option t.Value := v.held.view? t

def downcast (v : SyncValue) (t : Ty) : Except SyncValue t.Value :=
  match v.held.takeOut t with
  | .ok value => .ok value
  | .error held => .error ⟨held,v.encode,v.typeName⟩

def toPayload (v : SyncValue) (s : Serializer) : Except SerializationError Payload :=
  v.encode v.held s

def shown (v : SyncValue) : String :=
  Text.bracedOpen "SyncValue" [("type",Text.quoted v.typeName)]

end SyncValue

inductive OperationResult where
  | sync (value : SyncValue)
  | failed (error : OperationError)

abbrev Response := Except StartError OperationResult

def outcomeLabel : Response → String
  | .ok (.sync _) => "sync"
  | .ok (.failed _) => "failed"
  | .error e => e.kind.name

end Switchboard
