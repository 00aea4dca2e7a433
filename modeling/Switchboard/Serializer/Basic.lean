import Switchboard.Payload.Basic
import Switchboard.Payload.ContentType
import Switchboard.Schema.Basic
import Switchboard.Serializer.Error
import Switchboard.Text.Quoted

namespace Switchboard

structure Codec where
  contentType : String
  shown : String
  accepts : String → Bool
  encode : (t : Ty) → t.Value → Except SerializationError Payload
  -- A codec may succeed without producing a value.
  decode : (t : Ty) → Payload → Except SerializationError (Option t.Value)

inductive Serializer where
  | leaf (codec : Codec)
  | composite (primary : Serializer) (others : List Serializer)

namespace Serializer

def contentType : Serializer → String
  | .leaf codec => codec.contentType
  | .composite primary _ => primary.contentType

def encode (t : Ty) (v : t.Value) : Serializer → Except SerializationError Payload
  | .leaf codec => codec.encode t v
  | .composite primary _ => encode t v primary

mutual
def accepts (contentType : String) : Serializer → Bool
  | .leaf codec => codec.accepts contentType
  | .composite primary others => accepts contentType primary || anyAccepts contentType others

def anyAccepts (contentType : String) : List Serializer → Bool
  | [] => false
  | s :: rest => accepts contentType s || anyAccepts contentType rest
end

def ofNothing (contentType : String) (t : Ty) : Except SerializationError (Option t.Value) :=
  match t.ofNothing? with
  | some v => .ok (some v)
  | none => .error (.decode contentType .codec)

mutual
-- A typed payload goes to the first member that accepts its type, an untyped one to the
-- primary, and one with nothing in it is read as nothing.
def decode (t : Ty) (p : Payload) : Serializer → Except SerializationError (Option t.Value)
  | .leaf codec => codec.decode t p
  | .composite primary others =>
    match p.contentType with
    | none => if p.isEmpty then ofNothing primary.contentType t else decode t p primary
    | some given =>
      if primary.accepts given then decode t p primary else decodeFirst t p given others

def decodeFirst (t : Ty) (p : Payload) (given : String) :
    List Serializer → Except SerializationError (Option t.Value)
  | [] => .error (.unsupported given .decode)
  | s :: rest => if s.accepts given then decode t p s else decodeFirst t p given rest
end

def adding : Serializer → Serializer → Serializer
  | .composite primary others,s => .composite primary (others ++ [s])
  | .leaf codec,s => .composite (.leaf codec) [s]

def alone (s : Serializer) : Serializer := .composite s []

def toPayload (s : Serializer) (t : Ty) (v : t.Value) : Except SerializationError Payload :=
  s.encode t v

def fromPayload (s : Serializer) (t : Ty) (p : Payload) : Except SerializationError t.Value :=
  match s.decode t p with
  | .error e => .error e
  | .ok (some v) => .ok v
  | .ok none =>
    .error (.decode (p.contentType.getD s.contentType) (.text "serializer produced no value"))

def refusedType? (s : Serializer) (p : Payload) : Option String :=
  match s,p.contentType with
  | .composite _ _,some given => if s.accepts given then none else some given
  | _,_ => none

mutual
def shown : Serializer → String
  | .leaf codec => codec.shown
  | .composite primary others =>
    Text.braced "CompositeSerializer" [("primary",primary.shown),("rest",Text.bracketed (allShown others))]

def allShown : List Serializer → List String
  | [] => []
  | s :: rest => s.shown :: allShown rest
end

end Serializer
end Switchboard
