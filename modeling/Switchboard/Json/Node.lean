import Switchboard.Number.Digits

namespace Switchboard.Json

-- What type a value is read as is decided later, so that the grammar is dealt with once.

inductive Piece where
  | raw (byte : UInt8)
  | short (byte : UInt8)
  | unit (code : UInt16)
deriving DecidableEq

inductive ExponentSign where
  | bare
  | plus
  | minus
deriving DecidableEq

structure Exponent where
  capital : Bool
  sign : ExponentSign
  digits : List Digit
deriving DecidableEq

structure NumberText where
  negative : Bool
  whole : List Digit
  fraction : Option (List Digit)
  exponent : Option Exponent
deriving DecidableEq

inductive Node where
  | null
  | bool (b : Bool)
  | number (text : NumberText)
  | string (pieces : List Piece)
  | array (items : List Node)
  | object (members : List (List Piece × Node))

def shortEscapes : List (UInt8 × UInt8) :=
  [(0x22,0x22),(0x5c,0x5c),(0x2f,0x2f),(0x62,0x08),(0x66,0x0c),(0x6e,0x0a),
    (0x72,0x0d),(0x74,0x09)]

def escaped? (letter : UInt8) : Option UInt8 := shortEscapes.lookup letter

def letter? (byte : UInt8) : Option UInt8 :=
  (shortEscapes.map (fun pair => (pair.2,pair.1))).lookup byte

def isSpace (b : UInt8) : Bool := b == 0x20 || b == 0x0a || b == 0x0d || b == 0x09

def skipSpace (bs : List UInt8) : List UInt8 := bs.dropWhile isSpace

end Switchboard.Json
