import Switchboard.MsgPack.Node

namespace Switchboard.MsgPack

-- The shortest format that holds a number or a length is the one written.

def bigEndian : Nat → Nat → List UInt8
  | 0,_ => []
  | width + 1,n => bigEndian width (n / 256) ++ [UInt8.ofNat (n % 256)]

def renderNatural (n : Nat) : List UInt8 :=
  if n < 0x80 then [UInt8.ofNat n]
  else if n < 0x100 then 0xcc :: bigEndian 1 n
  else if n < 0x10000 then 0xcd :: bigEndian 2 n
  else if n < 0x1_0000_0000 then 0xce :: bigEndian 4 n
  else 0xcf :: bigEndian 8 n

def renderSigned (n : Int) : List UInt8 :=
  let pattern := fun (width : Nat) => bigEndian width (n % Nat.pow 256 width).toNat
  if -0x20 ≤ n ∧ n < 0 then pattern 1
  else if -0x80 ≤ n ∧ n < 0x80 then 0xd0 :: pattern 1
  else if -0x8000 ≤ n ∧ n < 0x8000 then 0xd1 :: pattern 2
  else if -0x8000_0000 ≤ n ∧ n < 0x8000_0000 then 0xd2 :: pattern 4
  else 0xd3 :: pattern 8

def renderFloat (f : Format) (x : Binary f) : List UInt8 :=
  (match f with
    | .single => 0xca
    | .double => 0xcb) :: bigEndian f.octets x.bits.toNat

def strHead (n : Nat) : List UInt8 :=
  if n < 0x20 then [UInt8.ofNat (0xa0 + n)]
  else if n < 0x100 then 0xd9 :: bigEndian 1 n
  else if n < 0x10000 then 0xda :: bigEndian 2 n
  else 0xdb :: bigEndian 4 n

def binHead (n : Nat) : List UInt8 :=
  if n < 0x100 then 0xc4 :: bigEndian 1 n
  else if n < 0x10000 then 0xc5 :: bigEndian 2 n
  else 0xc6 :: bigEndian 4 n

def arrayHead (n : Nat) : List UInt8 :=
  if n < 0x10 then [UInt8.ofNat (0x90 + n)]
  else if n < 0x10000 then 0xdc :: bigEndian 2 n
  else 0xdd :: bigEndian 4 n

def mapHead (n : Nat) : List UInt8 :=
  if n < 0x10 then [UInt8.ofNat (0x80 + n)]
  else if n < 0x10000 then 0xde :: bigEndian 2 n
  else 0xdf :: bigEndian 4 n

def extHead (n : Nat) : List UInt8 :=
  if n = 1 then [0xd4]
  else if n = 2 then [0xd5]
  else if n = 4 then [0xd6]
  else if n = 8 then [0xd7]
  else if n = 16 then [0xd8]
  else if n < 0x100 then 0xc7 :: bigEndian 1 n
  else if n < 0x10000 then 0xc8 :: bigEndian 2 n
  else 0xc9 :: bigEndian 4 n

mutual
def Node.render : Node → List UInt8
  | .nil => [0xc0]
  | .bool false => [0xc2]
  | .bool true => [0xc3]
  | .natural n => renderNatural n
  | .signed n => renderSigned n
  | .float f x => renderFloat f x
  | .str bytes => strHead bytes.length ++ bytes
  | .bin bytes => binHead bytes.length ++ bytes
  | .array items => arrayHead items.length ++ renderItems items
  | .map entries => mapHead entries.length ++ renderEntries entries
  | .ext tag bytes => extHead bytes.length ++ tag :: bytes

def renderItems : List Node → List UInt8
  | [] => []
  | item :: rest => item.render ++ renderItems rest

def renderEntries : List (Node × Node) → List UInt8
  | [] => []
  | (key,item) :: rest => key.render ++ item.render ++ renderEntries rest
end

end Switchboard.MsgPack
