import Switchboard.Text.Space

namespace Switchboard

def essence (contentType : String) : String :=
  String.ofList
    ((Text.trimChars (contentType.toList.takeWhile (fun c => c.toNat != 0x3b))).map Text.lowerAscii)

def applicationJson : String := "application/json"

def applicationMsgPack : String := "application/msgpack"

end Switchboard
