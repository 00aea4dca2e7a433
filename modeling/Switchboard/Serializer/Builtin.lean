import Switchboard.Json.Decode
import Switchboard.Json.Encode
import Switchboard.MsgPack.Decode
import Switchboard.MsgPack.Encode
import Switchboard.Serializer.Basic

namespace Switchboard

namespace Codec

def sameEssence (own given : String) : Bool := essence given == essence own

def checked (own : String) (t : Ty) (p : Payload) (decoded : Option t.Value) :
    Except SerializationError (Option t.Value) :=
  match p.contentType with
  | some given =>
    if sameEssence own given then
      match decoded with
      | some v => .ok (some v)
      | none => .error (.decode own .codec)
    else .error (.unsupported given .decode)
  | none =>
    match decoded with
    | some v => .ok (some v)
    | none => .error (.decode own .codec)

def wrapped (own : String) (encoded : Option (List UInt8)) : Except SerializationError Payload :=
  match encoded with
  | some body => .ok (.typed own body)
  | none => .error (.encode own .codec)

def json : Codec where
  contentType := applicationJson
  shown := "JsonSerializer"
  accepts := sameEssence applicationJson
  encode t v := wrapped applicationJson (Json.encode t v)
  decode t p := checked applicationJson t p (Json.decode t p.body)

def msgPack : Codec where
  contentType := applicationMsgPack
  shown := "MsgPackSerializer"
  accepts := sameEssence applicationMsgPack
  encode t v := wrapped applicationMsgPack (MsgPack.encode t v)
  decode t p := checked applicationMsgPack t p (MsgPack.decode t p.body)

end Codec

namespace Serializer

def json : Serializer := .leaf Codec.json

def msgPack : Serializer := .leaf Codec.msgPack

def standard : Serializer := json.alone.adding msgPack

instance : Inhabited Serializer := ⟨standard⟩

end Serializer
end Switchboard
