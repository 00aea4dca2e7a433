namespace Switchboard

abbrev Digit := Fin 10

namespace Digits

def zero : Digit := ⟨0,by decide⟩

def ofNatIn : Nat → Nat → List Digit
  | 0,_ => []
  | fuel + 1,n =>
    if small : n < 10 then [⟨n,small⟩]
    else ofNatIn fuel (n / 10) ++ [⟨n % 10,Nat.mod_lt n (by decide)⟩]

def ofNat (n : Nat) : List Digit := ofNatIn (n.log2 + 1) n

def toNatFrom (start : Nat) (ds : List Digit) : Nat :=
  ds.foldl (fun sum d => 10 * sum + d.val) start

def toNat (ds : List Digit) : Nat := toNatFrom 0 ds

def char (d : Digit) : Char := Char.ofNat (0x30 + d.val)

def byte (d : Digit) : UInt8 := UInt8.ofNat (0x30 + d.val)

def ofByte? (b : UInt8) : Option Digit :=
  if h : 0x30 ≤ b.toNat ∧ b.toNat < 0x3a then some ⟨b.toNat - 0x30,by omega⟩ else none

end Digits

def natText (n : Nat) : String := String.ofList ((Digits.ofNat n).map Digits.char)

def intText (n : Int) : String :=
  if n < 0 then "-" ++ natText n.natAbs else natText n.natAbs

end Switchboard
