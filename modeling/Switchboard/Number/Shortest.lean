import Switchboard.Number.Binary
import Switchboard.Number.Digits

namespace Switchboard

structure Scientific where
  digits : List Digit
  exponent : Int

namespace Scientific

def digitCount (n : Nat) : Nat := if n = 0 then 0 else (Digits.ofNat n).length

def floorLog10 (num den : Nat) : Int :=
  if den ≤ num then (digitCount (num / den) : Int) - 1
  else -(digitCount ((den - 1) / num) : Int)

def strip : List Digit → List Digit
  | [] => []
  | d :: rest => d :: (rest.reverse.dropWhile (· == Digits.zero)).reverse

def tenTo (p : Int) : Nat × Nat :=
  if 0 ≤ p then (Nat.pow 10 p.toNat,1) else (1,Nat.pow 10 (-p).toNat)

-- If any multiple of ten to the p reads back as the value, one of its two neighbours among them
-- does, so only those are tried. Of two that do, the nearer is taken and of two equally near
-- the even one.
def onGrid (low mid high den : Nat) (closed : Bool) (p : Int) : Option Nat :=
  let step := (tenTo p).1 * den
  let shift := (tenTo p).2
  let below := mid * shift / step
  let inside := fun k =>
    if closed then low * shift ≤ k * step && k * step ≤ high * shift
    else low * shift < k * step && k * step < high * shift
  match inside below,inside (below + 1) with
  | false,false => none
  | true,false => some below
  | false,true => some (below + 1)
  | true,true => some (Binary.roundDiv (mid * shift) step)

def search (low mid high den : Nat) (closed : Bool) (p : Int) : Nat → Nat × Int
  | 0 => (Binary.roundDiv (mid * (tenTo p).2) ((tenTo p).1 * den),p)
  | tries + 1 =>
    match onGrid low mid high den closed p with
    | some k => (k,p)
    | none => search low mid high den closed (p - 1) tries

-- What reads back is from half a gap below to half a gap above. The gap below a power of two is
-- half the gap above it.
def shortest {f : Format} (x : Binary f) : Scientific :=
  if x.isZero then ⟨[Digits.zero],0⟩
  else
    let gap := Nat.pow 2 x.scale
    let mid := 4 * x.units
    let low := if x.fraction = 0 && 0 < x.scale then mid - gap else mid - 2 * gap
    let high := mid + 2 * gap
    let den := 4 * Nat.pow 2 f.unitScale
    let (k,p) := search low mid high den (x.significand % 2 == 0) (floorLog10 mid den) 17
    let ds := Digits.ofNat k
    ⟨strip ds,p + ds.length - 1⟩

end Scientific
end Switchboard
