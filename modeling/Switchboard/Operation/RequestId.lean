import Switchboard.Text.Quoted

namespace Switchboard.RequestId

-- Version 4 UUIDs: the 13th digit is the version and the 17th the variant.

def lastDigits : Nat → Nat → List Char
  | 0,_ => []
  | count + 1,n => lastDigits count (n / 16) ++ [Text.hexChar (n % 16)]

def ofRandom (n : Nat) : String :=
  let node := lastDigits 12 n
  let sequence := Text.hexChar (8 + (n >>> 60) % 4) :: lastDigits 3 (n >>> 48)
  let version := '4' :: lastDigits 3 (n >>> 62)
  let middle := lastDigits 4 (n >>> 74)
  let first := lastDigits 8 (n >>> 90)
  String.ofList (first ++ ['-'] ++ middle ++ ['-'] ++ version ++ ['-'] ++ sequence ++ ['-'] ++ node)

def isHexDigit (c : Char) : Bool :=
  (0x30 ≤ c.toNat && c.toNat ≤ 0x39) || (0x61 ≤ c.toNat && c.toNat ≤ 0x66)

def isVersion4 (s : String) : Bool :=
  let cs := s.toList
  cs.length == 36 &&
    cs.zipIdx.all (fun (c,i) =>
      if i == 8 || i == 13 || i == 18 || i == 23 then c == '-'
      else if i == 14 then c == '4'
      else if i == 19 then c == '8' || c == '9' || c == 'a' || c == 'b'
      else isHexDigit c)

end Switchboard.RequestId
