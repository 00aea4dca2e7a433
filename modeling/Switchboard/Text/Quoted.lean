import Switchboard.Number.Digits
import Switchboard.Text.Printable

namespace Switchboard.Text

def hexChar (n : Nat) : Char := if n < 10 then Char.ofNat (0x30 + n) else Char.ofNat (0x57 + n)

def hexDigitsIn : Nat → Nat → List Char
  | 0,_ => []
  | fuel + 1,n => if n < 16 then [hexChar n] else hexDigitsIn fuel (n / 16) ++ [hexChar (n % 16)]

def hexDigits (n : Nat) : List Char := hexDigitsIn (n.log2 + 1) n

def hexBytes (bs : List UInt8) : String :=
  String.ofList (bs.flatMap (fun b => [hexChar (b.toNat / 16),hexChar (b.toNat % 16)]))

def quotedChar (c : Char) : List Char :=
  if c.toNat = 0x22 || c.toNat = 0x5c then ['\\',c]
  else if c.toNat = 0x0a then ['\\','n']
  else if c.toNat = 0x0d then ['\\','r']
  else if c.toNat = 0x09 then ['\\','t']
  else if c.toNat = 0 then ['\\','0']
  else if isPrintable c then [c]
  else ['\\','u','\x7b'] ++ hexDigits c.toNat ++ ['\x7d']

def quoted (s : String) : String :=
  String.ofList ('\x22' :: (s.toList.flatMap quotedChar ++ ['\x22']))

def listed (parts : List String) : String := String.intercalate ", " parts

def bracketed (parts : List String) : String := "[" ++ listed parts ++ "]"

def braced (name : String) (parts : List (String × String)) : String :=
  name ++ " \x7b " ++ listed (parts.map (fun part => part.1 ++ ": " ++ part.2)) ++ " \x7d"

def bracedOpen (name : String) (parts : List (String × String)) : String :=
  name ++ " \x7b " ++ listed (parts.map (fun part => part.1 ++ ": " ++ part.2) ++ [".."]) ++ " \x7d"

def quotedOption : Option String → String
  | none => "None"
  | some s => "Some(" ++ quoted s ++ ")"

end Switchboard.Text
