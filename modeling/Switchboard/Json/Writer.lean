import Switchboard.Json.Node

namespace Switchboard.Json

def signBytes (negative : Bool) : List UInt8 := if negative then [0x2d] else []

def Exponent.render (e : Exponent) : List UInt8 :=
  let sign : List UInt8 :=
    match e.sign with
    | .bare => []
    | .plus => [0x2b]
    | .minus => [0x2d]
  (if e.capital then 0x45 else 0x65) :: (sign ++ e.digits.map Digits.byte)

def NumberText.render (t : NumberText) : List UInt8 :=
  let fraction : List UInt8 :=
    match t.fraction with
    | none => []
    | some ds => 0x2e :: ds.map Digits.byte
  let exponent : List UInt8 :=
    match t.exponent with
    | none => []
    | some e => e.render
  signBytes t.negative ++ t.whole.map Digits.byte ++ fraction ++ exponent

def hexByte (n : Nat) : UInt8 :=
  if n < 10 then UInt8.ofNat (0x30 + n) else UInt8.ofNat (0x57 + n)

def Piece.render : Piece → List UInt8
  | .raw b => [b]
  | .short b =>
    match letter? b with
    | some letter => [0x5c,letter]
    | none => [b]
  | .unit code =>
    let n := code.toNat
    [0x5c,0x75,hexByte (n / 4096),hexByte (n / 256 % 16),hexByte (n / 16 % 16),
      hexByte (n % 16)]

def quoted (ps : List Piece) : List UInt8 := 0x22 :: (ps.flatMap Piece.render ++ [0x22])

def commas : List (List UInt8) → List UInt8
  | [] => []
  | [part] => part
  | part :: rest => part ++ 0x2c :: commas rest

mutual
def Node.render : Node → List UInt8
  | .null => [0x6e,0x75,0x6c,0x6c]
  | .bool true => [0x74,0x72,0x75,0x65]
  | .bool false => [0x66,0x61,0x6c,0x73,0x65]
  | .number text => text.render
  | .string ps => quoted ps
  | .array items => 0x5b :: (commas (renderItems items) ++ [0x5d])
  | .object members => 0x7b :: (commas (renderMembers members) ++ [0x7d])

def renderItems : List Node → List (List UInt8)
  | [] => []
  | item :: rest => item.render :: renderItems rest

def renderMembers : List (List Piece × Node) → List (List UInt8)
  | [] => []
  | (key,item) :: rest => (quoted key ++ 0x3a :: item.render) :: renderMembers rest
end

end Switchboard.Json
