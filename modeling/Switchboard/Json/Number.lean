import Switchboard.Json.Node
import Switchboard.Number.Shortest

namespace Switchboard.Json

-- Digits are gathered while 64 bits hold them; the rest only moves the exponent. There is one
-- division or multiplication by a power of ten, so the result is not always correctly rounded.

inductive Number where
  | whole (n : Int)
  | real (x : Binary .double)

def gather (sum : Nat) : List Digit → Nat × List Digit
  | [] => (sum,[])
  | d :: ds =>
    if 10 * sum + d.val < 0x1_0000_0000_0000_0000 then gather (10 * sum + d.val) ds
    else (sum,d :: ds)

def powerOfTen (n : Nat) : Binary .double := Binary.ofRatio .double false (Nat.pow 10 n) 1

def scaleDown (x : Binary .double) (places : Nat) : Binary .double :=
  if places ≤ 308 then x.div (powerOfTen places)
  else if x.isZero then x
  else scaleDown (x.div (powerOfTen 308)) (places - 308)
termination_by places
decreasing_by omega

def scaled? (significand : Nat) (exponent : Int) : Option (Binary .double) :=
  let x := Binary.ofInt .double significand
  if exponent < 0 then some (scaleDown x exponent.natAbs)
  else if exponent ≤ 308 then
    let y := x.mul (powerOfTen exponent.natAbs)
    if y.isFinite then some y else none
  else if x.isZero then some x
  else none

namespace NumberText

def signed (t : NumberText) (x : Binary .double) : Binary .double :=
  if t.negative then x.negate else x

def real? (t : NumberText) : Option (Binary .double) :=
  let (high,left) := gather 0 t.whole
  let fraction := t.fraction.getD []
  let (significand,unused) := gather high fraction
  let start : Int := left.length - (fraction.length - unused.length)
  match t.exponent with
  | none => (scaled? significand start).map t.signed
  | some e =>
    let places := Digits.toNat e.digits
    if places < 0x8000_0000 then
      let shift : Int := if e.sign = .minus then -places else places
      (scaled? significand (start + shift)).map t.signed
    else if e.sign = .minus || significand = 0 then some (t.signed (Binary.ofParts .double false 0))
    else none

-- Minus zero is no whole number.
def value? (t : NumberText) : Option Number :=
  if t.fraction.isNone && t.exponent.isNone then
    match gather 0 t.whole with
    | (n,[]) =>
      if !t.negative then some (.whole n)
      else if 0 < n && n ≤ 0x8000_0000_0000_0000 then some (.whole (-n))
      else some (.real (Binary.ofInt .double n).negate)
    | (_,_ :: _) => t.real?.map .real
  else t.real?.map .real

def ofInt (n : Int) : NumberText := ⟨n < 0,Digits.ofNat n.natAbs,none,none⟩

end NumberText

def isPositional : Format → Int → Bool
  | .double,e => -5 ≤ e && e ≤ 15
  | .single,e => -6 ≤ e && e ≤ 12

def positional (negative : Bool) (s : Scientific) : NumberText :=
  if s.exponent < 0 then
    ⟨negative,[Digits.zero],
      some (List.replicate (s.exponent.natAbs - 1) Digits.zero ++ s.digits),none⟩
  else
    let places := s.exponent.natAbs + 1
    let whole := s.digits.take places ++ List.replicate (places - s.digits.length) Digits.zero
    let fraction := s.digits.drop places
    ⟨negative,whole,some (if fraction.isEmpty then [Digits.zero] else fraction),none⟩

def withExponent (negative : Bool) (s : Scientific) : NumberText :=
  let fraction := s.digits.drop 1
  ⟨negative,s.digits.take 1,if fraction.isEmpty then none else some fraction,
    some ⟨false,if s.exponent < 0 then .minus else .plus,Digits.ofNat s.exponent.natAbs⟩⟩

def NumberText.ofBinary {f : Format} (x : Binary f) : NumberText :=
  let s := Scientific.shortest x
  if isPositional f s.exponent then positional x.isNegative s else withExponent x.isNegative s

end Switchboard.Json
