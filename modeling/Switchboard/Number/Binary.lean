namespace Switchboard

-- Every finite number of a format is a whole multiple of its least positive number, the unit,
-- so that rounding is one division in Nat.

inductive Format where
  | single
  | double
deriving DecidableEq

namespace Format

def fractionBits : Format → Nat
  | single => 23
  | double => 52

def exponentBits : Format → Nat
  | single => 8
  | double => 11

def width (f : Format) : Nat := f.exponentBits + f.fractionBits + 1

def octets : Format → Nat
  | single => 4
  | double => 8

def unitScale (f : Format) : Nat := Nat.pow 2 (f.exponentBits - 1) - 2 + f.fractionBits

-- Finite patterns are below it and NaNs above.
def infinity (f : Format) : Nat := (Nat.pow 2 f.exponentBits - 1) * Nat.pow 2 f.fractionBits

end Format

structure Binary (f : Format) where
  bits : BitVec f.width
deriving DecidableEq

namespace Binary

variable {f : Format}

def ofParts (f : Format) (negative : Bool) (magnitude : Nat) : Binary f :=
  ⟨BitVec.ofNat f.width ((if negative then Nat.pow 2 (f.width - 1) else 0) + magnitude)⟩

def isNegative (x : Binary f) : Bool := Nat.pow 2 (f.width - 1) ≤ x.bits.toNat

def magnitude (x : Binary f) : Nat := x.bits.toNat % Nat.pow 2 (f.width - 1)

def isFinite (x : Binary f) : Bool := x.magnitude < f.infinity

def isNaN (x : Binary f) : Bool := f.infinity < x.magnitude

def isZero (x : Binary f) : Bool := x.magnitude == 0

def exponentField (x : Binary f) : Nat := x.magnitude / Nat.pow 2 f.fractionBits

def fraction (x : Binary f) : Nat := x.magnitude % Nat.pow 2 f.fractionBits

def significand (x : Binary f) : Nat :=
  if x.exponentField = 0 then x.fraction else x.fraction + Nat.pow 2 f.fractionBits

def scale (x : Binary f) : Nat := x.exponentField - 1

def units (x : Binary f) : Nat := x.significand * Nat.pow 2 x.scale

def quietNaN (f : Format) : Binary f :=
  ofParts f false (f.infinity + Nat.pow 2 (f.fractionBits - 1))

def roundDiv (n d : Nat) : Nat :=
  if 2 * (n % d) < d then n / d
  else if d < 2 * (n % d) then n / d + 1
  else n / d + n / d % 2

-- A significand that rounds up to the next power of two carries into the exponent field by
-- itself, since the fields stand side by side.
def ofRatio (f : Format) (negative : Bool) (num den : Nat) : Binary f :=
  let units := num * Nat.pow 2 f.unitScale
  let scale := (units / den).log2 - f.fractionBits
  let magnitude := scale * Nat.pow 2 f.fractionBits + roundDiv units (den * Nat.pow 2 scale)
  ofParts f negative (min magnitude f.infinity)

def ofInt (f : Format) (n : Int) : Binary f := ofRatio f (n < 0) n.natAbs 1

def negate (x : Binary f) : Binary f := ofParts f (!x.isNegative) x.magnitude

def quieted (x : Binary f) : Binary f :=
  ofParts f x.isNegative (x.magnitude ||| Nat.pow 2 (f.fractionBits - 1))

-- A NaN operand is the result, the first of two.
def mul (x y : Binary f) : Binary f :=
  let negative := x.isNegative != y.isNegative
  if x.isNaN then x.quieted
  else if y.isNaN then y.quieted
  else if x.isFinite && y.isFinite then
    ofRatio f negative (x.units * y.units) (Nat.pow 2 f.unitScale * Nat.pow 2 f.unitScale)
  else if x.isZero || y.isZero then quietNaN f
  else ofParts f negative f.infinity

def div (x y : Binary f) : Binary f :=
  let negative := x.isNegative != y.isNegative
  if x.isNaN then x.quieted
  else if y.isNaN then y.quieted
  else if x.isFinite then
    if y.isFinite then
      if y.isZero then
        if x.isZero then quietNaN f else ofParts f negative f.infinity
      else ofRatio f negative x.units y.units
    else ofParts f negative 0
  else if y.isFinite then ofParts f negative f.infinity
  else quietNaN f

def fractionIn (g : Format) (x : Binary f) : Nat :=
  x.fraction * Nat.pow 2 g.fractionBits / Nat.pow 2 f.fractionBits

def convert (g : Format) (x : Binary f) : Binary g :=
  if same : f = g then same ▸ x
  else if x.isFinite then ofRatio g x.isNegative x.units (Nat.pow 2 f.unitScale)
  else if x.isNaN then (ofParts g x.isNegative (g.infinity + x.fractionIn g)).quieted
  else ofParts g x.isNegative g.infinity

end Binary
end Switchboard
