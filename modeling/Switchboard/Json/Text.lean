import Switchboard.Json.Node
import Switchboard.Text.Utf8

namespace Switchboard.Json

def isHighSurrogate (u : UInt16) : Bool := 0xd800 ≤ u && u ≤ 0xdbff

def isLowSurrogate (u : UInt16) : Bool := 0xdc00 ≤ u && u ≤ 0xdfff

def combine (high low : UInt16) : Nat :=
  0x10000 + (high.toNat - 0xd800) * 0x400 + (low.toNat - 0xdc00)

def isControlByte (b : UInt8) : Bool := b < 0x20

namespace Piece

def isClean : Piece → Bool
  | .raw b => !isControlByte b
  | .short _ | .unit _ => true

def pairedBytes? : List Piece → Option (List UInt8)
  | [] => some []
  | .raw b :: rest => if isControlByte b then none else (pairedBytes? rest).map (b :: ·)
  | .short b :: rest => (pairedBytes? rest).map (b :: ·)
  | .unit u :: rest =>
    if isHighSurrogate u then
      match rest with
      | .unit v :: rest =>
        if isLowSurrogate v then
          (pairedBytes? rest).map (Text.codePointBytes (combine u v) ++ ·)
        else none
      | _ => none
    else if isLowSurrogate u then none
    else (pairedBytes? rest).map (Text.codePointBytes u.toNat ++ ·)

def text? (ps : List Piece) : Option String := (pairedBytes? ps).bind Text.ofBytes?

-- A surrogate that has no partner is left on its own.
def blob : List Piece → List UInt8
  | [] => []
  | .raw b :: rest => b :: blob rest
  | .short b :: rest => b :: blob rest
  | .unit u :: rest =>
    if isHighSurrogate u then
      match rest with
      | .unit v :: after =>
        if isLowSurrogate v then Text.codePointBytes (combine u v) ++ blob after
        else Text.codePointBytes u.toNat ++ blob (.unit v :: after)
      | rest => Text.codePointBytes u.toNat ++ blob rest
    else Text.codePointBytes u.toNat ++ blob rest

def rawBytes? : List Piece → Option (List UInt8)
  | [] => some []
  | .raw b :: rest => (rawBytes? rest).map (b :: ·)
  | .short _ :: _ | .unit _ :: _ => none

def ofByte (b : UInt8) : Piece :=
  if isControlByte b then
    match letter? b with
    | some _ => .short b
    | none => .unit b.toUInt16
  else if b = 0x22 || b = 0x5c then .short b
  else .raw b

def ofText (s : String) : List Piece := (Text.bytes s).map ofByte

end Piece

mutual
def Node.isSound : Node → Bool
  | .null | .bool _ | .number _ => true
  | .string ps => ps.all Piece.isClean
  | .array items => areSound items
  | .object members => areSoundMembers members

def areSound : List Node → Bool
  | [] => true
  | item :: rest => item.isSound && areSound rest

def areSoundMembers : List (List Piece × Node) → Bool
  | [] => true
  | (key,item) :: rest => key.all Piece.isClean && item.isSound && areSoundMembers rest
end

end Switchboard.Json
