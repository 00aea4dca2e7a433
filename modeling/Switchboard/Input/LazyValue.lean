import Switchboard.Operation.Work
import Switchboard.Schema.Name
import Switchboard.Serializer.Builtin

namespace Switchboard

inductive Source where
  | buffered (payload : Payload)
  | streaming (contentType : Option String) (headers : Headers) (reader : Reader)

structure LazyValue where
  serializer : Serializer
  source : Source

namespace LazyValue

def ofPayload (serializer : Serializer) (payload : Payload) : LazyValue :=
  ⟨serializer,.buffered payload⟩

-- The content type is taken out of the headers before the body is there.
def ofReader (serializer : Serializer) (headers : Headers) (reader : Reader) : LazyValue :=
  ⟨serializer,.streaming (splitContentType headers).1 (splitContentType headers).2 reader⟩

def contentType (v : LazyValue) : Option String :=
  match v.source with
  | .buffered p => p.contentType
  | .streaming contentType _ _ => contentType

def headers (v : LazyValue) : Headers :=
  match v.source with
  | .buffered p => p.headers
  | .streaming _ headers _ => headers

def isStreaming (v : LazyValue) : Bool :=
  match v.source with
  | .buffered _ => false
  | .streaming _ _ _ => true

def assembled (contentType : Option String) (headers : Headers) (body : List UInt8) : Payload :=
  let bare :=
    match contentType with
    | some given => Payload.typed given body
    | none => Payload.untyped body
  headers.entries.foldl (fun p entry => p.withHeader entry.1 entry.2) bare

def gathered (contentType : Option String) (headers : Headers) :
    Except String (List UInt8) → Except SerializationError Payload
  | .ok body => .ok (assembled contentType headers body)
  | .error message => .error (.read message)

def payload (v : LazyValue) : Except SerializationError Payload :=
  match v.source with
  | .buffered p => .ok p
  | .streaming contentType headers reader => gathered contentType headers reader.contents

def consumed (v : LazyValue) (t : Ty) : Except SerializationError t.Value :=
  match v.payload with
  | .ok p => v.serializer.fromPayload t p
  | .error e => .error e

def intoPayload (v : LazyValue) : Work (Except SerializationError Payload) :=
  match v.source with
  | .buffered p => pure (.ok p)
  | .streaming contentType headers reader => do
    let result ← Work.readAll reader
    return gathered contentType headers result

def tellRefusal (s : Serializer) (p : Payload) : Work Unit :=
  match s.refusedType? p with
  | some given => Work.tell (.noSerializer given)
  | none => pure ()

def consume (v : LazyValue) (t : Ty) : Work (Except SerializationError t.Value) := do
  match ← v.intoPayload with
  | .error e => return .error e
  | .ok p =>
    Work.tell (.decodingInput p.contentType p.body.length t.typeName)
    tellRefusal v.serializer p
    return v.serializer.fromPayload t p

def shown (v : LazyValue) : String :=
  Text.bracedOpen "LazyValue"
    [("serializer",v.serializer.shown),
      ("source",Text.quoted (if v.isStreaming then "streaming" else "buffered")),
      ("content_type",Text.quotedOption v.contentType)]

end LazyValue
end Switchboard
