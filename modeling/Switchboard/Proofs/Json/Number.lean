import Switchboard.Json.Number
import Switchboard.Json.Reader
import Switchboard.Json.Writer

namespace Switchboard

namespace Digits

theorem ofByte_byte (d : Digit) : ofByte? (byte d) = some d := by
  revert d
  decide

theorem byte_ofByte {b : UInt8} {d : Digit} (read : ofByte? b = some d) : b = byte d := by
  unfold ofByte? at read
  split at read
  · rename_i within
    cases read
    have back : 0x30 + (b.toNat - 0x30) = b.toNat := by omega
    rw [byte,back,UInt8.ofNat_toNat]
  · cases read

theorem toNatFrom_append (start : Nat) (high low : List Digit) :
    toNatFrom start (high ++ low) = toNatFrom (toNatFrom start high) low := List.foldl_append

theorem le_toNatFrom (start : Nat) (ds : List Digit) : start ≤ toNatFrom start ds := by
  induction ds generalizing start with
  | nil => exact Nat.le_refl _
  | cons d ds ih =>
      have later := ih (10 * start + d.val)
      rw [toNatFrom,List.foldl_cons]
      exact Nat.le_trans (by omega) later

-- Ten is more than two, so a digit is taken off for each binary place at most.
theorem tenth_below {fuel n : Nat} (enough : n < Nat.pow 2 (fuel + 1)) : n / 10 < Nat.pow 2 fuel := by
  have double : Nat.pow 2 (fuel + 1) = Nat.pow 2 fuel * 2 := rfl
  omega

theorem toNat_ofNatIn {fuel n : Nat} (enough : n < Nat.pow 2 fuel) : toNat (ofNatIn fuel n) = n := by
  induction fuel generalizing n with
  | zero =>
      have zero : n = 0 := Nat.lt_one_iff.mp enough
      subst zero; rfl
  | succ fuel ih =>
      rw [ofNatIn]
      split
      · simp [toNat,toNatFrom]
      · rw [toNat,toNatFrom_append,← toNat,ih (tenth_below enough)]
        simp only [toNatFrom,List.foldl_cons,List.foldl_nil]
        omega

theorem toNat_ofNat (n : Nat) : toNat (ofNat n) = n := toNat_ofNatIn Nat.lt_log2_self

-- Digits as they stand before a point: some, and no zero in front of others.
def Whole (ds : List Digit) : Prop := ∃ d rest, ds = d :: rest ∧ (rest = [] ∨ 0 < d.val)

theorem ofNatIn_leading {fuel n : Nat} (enough : n < Nat.pow 2 fuel) (positive : 0 < n) :
    ∃ d rest, ofNatIn fuel n = d :: rest ∧ 0 < d.val := by
  induction fuel generalizing n with
  | zero =>
      have zero : n = 0 := Nat.lt_one_iff.mp enough
      omega
  | succ fuel ih =>
      rw [ofNatIn]
      split
      · exact ⟨_,[],rfl,positive⟩
      · obtain ⟨d,rest,high,leading⟩ := ih (tenth_below enough) (by omega)
        exact ⟨d,_,by rw [high]; rfl,leading⟩

theorem ofNat_whole (n : Nat) : Whole (ofNat n) := by
  by_cases zero : n = 0
  · subst zero; exact ⟨zero,[],rfl,.inl rfl⟩
  · obtain ⟨d,rest,same,leading⟩ := ofNatIn_leading (n := n) Nat.lt_log2_self (Nat.pos_of_ne_zero zero)
    exact ⟨d,rest,same,.inr leading⟩

end Digits

namespace Json

-- What may follow a number without carrying it on.
structure Ends (rest : List UInt8) : Prop where
  digit : ∀ b ∈ rest.head?, Digits.ofByte? b = none
  point : rest.head? ≠ some 0x2e
  exponent : rest.head? ≠ some 0x65 ∧ rest.head? ≠ some 0x45

theorem ends_nil : Ends [] := ⟨by simp,by simp,by simp⟩

theorem digits_append {rest : List UInt8} (stops : ∀ b ∈ rest.head?, Digits.ofByte? b = none)
    (ds : List Digit) : digits (ds.map Digits.byte ++ rest) = (ds,rest) := by
  induction ds with
  | nil =>
      cases rest with
      | nil => rfl
      | cons b rest => simp [digits,stops b rfl]
  | cons d ds ih => simp [digits,Digits.ofByte_byte,ih]

theorem someDigits_append {rest : List UInt8} (stops : ∀ b ∈ rest.head?, Digits.ofByte? b = none)
    {ds : List Digit} (present : ds ≠ []) : someDigits (ds.map Digits.byte ++ rest) = some (ds,rest) := by
  rw [someDigits,digits_append stops]
  cases ds with
  | nil => contradiction
  | cons d ds => rfl

theorem wholePart_append {rest : List UInt8} (stops : ∀ b ∈ rest.head?, Digits.ofByte? b = none)
    {ds : List Digit} (whole : Digits.Whole ds) : wholePart (ds.map Digits.byte ++ rest) = some (ds,rest) := by
  rw [wholePart,digits_append stops]
  obtain ⟨d,others,rfl,leading⟩ := whole
  cases others with
  | nil => rfl
  | cons e others =>
      have positive : 0 < d.val := leading.resolve_left (by simp)
      have nonzero : d ≠ 0 := fun zero => by subst zero; exact Nat.lt_irrefl _ positive
      simp [nonzero]

def fractionBytes : Option (List Digit) → List UInt8
  | none => []
  | some ds => 0x2e :: ds.map Digits.byte

def exponentBytes : Option Exponent → List UInt8
  | none => []
  | some e => e.render

structure NumberText.WellFormed (t : NumberText) : Prop where
  whole : Digits.Whole t.whole
  fraction : ∀ ds ∈ t.fraction, ds ≠ []
  exponent : ∀ e ∈ t.exponent, e.digits ≠ []

theorem NumberText.render_parts (t : NumberText) :
    t.render = signBytes t.negative ++
      (t.whole.map Digits.byte ++ (fractionBytes t.fraction ++ exponentBytes t.exponent)) := by
  obtain ⟨negative,whole,fraction,exponent⟩ := t
  cases fraction <;> cases exponent <;> simp [NumberText.render,fractionBytes,exponentBytes]

theorem byte_signs (d : Digit) : Digits.byte d ≠ 0x2b ∧ Digits.byte d ≠ 0x2d := by
  revert d
  decide

theorem exponentPart_append {exponent : Option Exponent} (present : ∀ e ∈ exponent, e.digits ≠ [])
    {rest : List UInt8} (ends : Ends rest) :
    exponentPart (exponentBytes exponent ++ rest) = some (exponent,rest) := by
  cases exponent with
  | none =>
      cases rest with
      | nil => rfl
      | cons b rest =>
          have other := ends.exponent
          simp only [List.head?_cons,ne_eq,Option.some.injEq] at other
          simp [exponentBytes,exponentPart,other.1,other.2]
  | some e =>
      have digitsRead := someDigits_append ends.digit (present e rfl)
      obtain ⟨capital,sign,ds⟩ := e
      obtain ⟨d,others,rfl⟩ := List.exists_cons_of_ne_nil (present _ rfl)
      obtain ⟨plus,minus⟩ := byte_signs d
      simp only [List.map_cons,List.cons_append] at digitsRead
      cases capital <;> cases sign <;>
        simp [exponentBytes,Exponent.render,exponentPart,exponentSign,plus,minus,digitsRead]

theorem fractionPart_append {fraction : Option (List Digit)} (present : ∀ ds ∈ fraction, ds ≠ [])
    {rest : List UInt8} (stops : ∀ b ∈ rest.head?, Digits.ofByte? b = none) (point : rest.head? ≠ some 0x2e) :
    fractionPart (fractionBytes fraction ++ rest) = some (fraction,rest) := by
  cases fraction with
  | none =>
      cases rest with
      | nil => rfl
      | cons b rest =>
          simp only [List.head?_cons,ne_eq,Option.some.injEq] at point
          simp [fractionBytes,fractionPart,point]
  | some ds => simp [fractionBytes,fractionPart,someDigits_append stops (present ds rfl)]

theorem minusSign_append (negative : Bool) {ds : List Digit} (whole : Digits.Whole ds) (rest : List UInt8) :
    minusSign (signBytes negative ++ (ds.map Digits.byte ++ rest)) = (negative,ds.map Digits.byte ++ rest) := by
  obtain ⟨d,others,rfl,_⟩ := whole
  cases negative with
  | true => rfl
  | false => simp [signBytes,minusSign,(byte_signs d).2]

theorem number_render {t : NumberText} (wellFormed : t.WellFormed) {rest : List UInt8} (ends : Ends rest) :
    number (t.render ++ rest) = some (t,rest) := by
  have exponent := exponentPart_append wellFormed.exponent ends
  have afterFraction : (∀ b ∈ (exponentBytes t.exponent ++ rest).head?, Digits.ofByte? b = none) ∧
      (exponentBytes t.exponent ++ rest).head? ≠ some 0x2e := by
    cases t.exponent with
    | none => exact ⟨ends.digit,ends.point⟩
    | some e =>
        obtain ⟨capital,sign,ds⟩ := e
        cases capital <;> exact ⟨by rintro _ ⟨⟩; rfl,by simp [exponentBytes,Exponent.render]⟩
  have fraction := fractionPart_append wellFormed.fraction afterFraction.1 afterFraction.2
  have afterWhole : ∀ b ∈ (fractionBytes t.fraction ++ (exponentBytes t.exponent ++ rest)).head?,
      Digits.ofByte? b = none := by
    cases t.fraction with
    | none => exact afterFraction.1
    | some ds => rintro _ ⟨⟩; decide
  have whole := wholePart_append afterWhole wellFormed.whole
  have sign := minusSign_append t.negative wellFormed.whole
    (fractionBytes t.fraction ++ (exponentBytes t.exponent ++ rest))
  simp only [number,NumberText.render_parts,List.append_assoc,sign,whole,fraction,exponent,
    Option.bind_eq_bind,Option.bind_some]
  rfl

-- Nothing is read that is not written so: the parts of a number spell the bytes that were taken.

section Sound

variable {bs rest : List UInt8}

theorem digits_sound {ds : List Digit} (read : digits bs = (ds,rest)) : bs = ds.map Digits.byte ++ rest := by
  induction bs generalizing ds with
  | nil => cases read; rfl
  | cons b bs ih =>
      rw [digits] at read
      cases first : Digits.ofByte? b with
      | none => rw [first] at read; cases read; rfl
      | some d =>
          rw [first] at read
          cases read
          rw [List.map_cons,List.cons_append,← ih rfl,← Digits.byte_ofByte first]

theorem someDigits_sound {ds : List Digit} (read : someDigits bs = some (ds,rest)) :
    ds ≠ [] ∧ bs = ds.map Digits.byte ++ rest := by
  unfold someDigits at read
  split at read
  · cases read
  · rename_i spelled
    cases read
    exact ⟨List.cons_ne_nil _ _,digits_sound spelled⟩

theorem wholePart_sound {ds : List Digit} (read : wholePart bs = some (ds,rest)) :
    Digits.Whole ds ∧ bs = ds.map Digits.byte ++ rest := by
  unfold wholePart at read
  split at read
  · cases read
  · rename_i d after spelled
    cases read
    exact ⟨⟨d,[],rfl,.inl rfl⟩,digits_sound spelled⟩
  · rename_i d ds after _ spelled
    split at read
    · cases read
    · rename_i nonzero
      cases read
      refine ⟨⟨d,ds,rfl,.inr ?_⟩,digits_sound spelled⟩
      exact Nat.pos_of_ne_zero (fun zero => nonzero (Fin.ext zero))

theorem fractionPart_sound {fraction : Option (List Digit)} (read : fractionPart bs = some (fraction,rest)) :
    (∀ ds ∈ fraction, ds ≠ []) ∧ bs = fractionBytes fraction ++ rest := by
  cases bs with
  | nil => cases read; exact ⟨by simp,rfl⟩
  | cons b bs =>
      rw [fractionPart] at read
      split at read
      · rename_i point
        obtain ⟨⟨ds,after⟩,spelled,same⟩ := Option.map_eq_some_iff.mp read
        cases same
        obtain ⟨present,written⟩ := someDigits_sound spelled
        refine ⟨by simpa using present,?_⟩
        rw [point,written]
        rfl
      · cases read; exact ⟨by simp,rfl⟩

theorem exponentSign_sound (capital : Bool) (ds : List Digit) (spelled : (exponentSign bs).2 = ds.map Digits.byte ++ rest) :
    (if capital then 0x45 else 0x65) :: bs = Exponent.render ⟨capital,(exponentSign bs).1,ds⟩ ++ rest := by
  cases bs with
  | nil => simpa [exponentSign,Exponent.render] using spelled
  | cons b bs =>
      rw [exponentSign] at spelled ⊢
      by_cases plus : b = 0x2b
      · simp_all [Exponent.render]
      · by_cases minus : b = 0x2d
        · simp_all [Exponent.render]
        · simp_all [Exponent.render]

theorem exponentPart_sound {exponent : Option Exponent} (read : exponentPart bs = some (exponent,rest)) :
    (∀ e ∈ exponent, e.digits ≠ []) ∧ bs = exponentBytes exponent ++ rest := by
  cases bs with
  | nil => cases read; exact ⟨by simp,rfl⟩
  | cons b bs =>
      rw [exponentPart] at read
      split at read
      · rename_i letter
        obtain ⟨⟨ds,after⟩,spelled,same⟩ := Option.map_eq_some_iff.mp read
        cases same
        obtain ⟨present,written⟩ := someDigits_sound spelled
        refine ⟨by simpa using present,?_⟩
        have byte : b = if (b == 0x45) = true then 0x45 else 0x65 := by
          have either : b = 0x65 ∨ b = 0x45 := by simpa using letter
          rcases either with rfl | rfl
          · rfl
          · rfl
        have signed := exponentSign_sound (b == 0x45) ds written
        rw [← byte] at signed
        exact signed
      · cases read; exact ⟨by simp,rfl⟩

theorem minusSign_sound (bs : List UInt8) : bs = signBytes (minusSign bs).1 ++ (minusSign bs).2 := by
  cases bs with
  | nil => rfl
  | cons b bs =>
      rw [minusSign]
      split
      · rename_i minus; rw [minus]; rfl
      · rfl

theorem number_sound {t : NumberText} (read : number bs = some (t,rest)) : t.WellFormed ∧ bs = t.render ++ rest := by
  simp only [number,Option.bind_eq_bind,Option.bind_eq_some_iff] at read
  obtain ⟨⟨whole,afterWhole⟩,wholeRead,⟨fraction,afterFraction⟩,fractionRead,⟨exponent,after⟩,exponentRead,same⟩ := read
  cases same
  obtain ⟨wholeForm,wholeBytes⟩ := wholePart_sound wholeRead
  obtain ⟨fractionForm,fractionWritten⟩ := fractionPart_sound fractionRead
  obtain ⟨exponentForm,exponentWritten⟩ := exponentPart_sound exponentRead
  refine ⟨⟨wholeForm,fractionForm,exponentForm⟩,?_⟩
  rw [NumberText.render_parts,List.append_assoc,List.append_assoc,List.append_assoc,← exponentWritten,
    ← fractionWritten,← wholeBytes]
  exact minusSign_sound bs

end Sound

theorem gather_all (start : Nat) (ds : List Digit)
    (fits : Digits.toNatFrom start ds < 0x1_0000_0000_0000_0000) : gather start ds = (Digits.toNatFrom start ds,[]) := by
  induction ds generalizing start with
  | nil => rfl
  | cons d ds ih =>
      have later : Digits.toNatFrom (10 * start + d.val) ds < 0x1_0000_0000_0000_0000 := fits
      have here := Nat.lt_of_le_of_lt (Digits.le_toNatFrom _ ds) later
      rw [gather,if_pos here,ih _ later]
      rfl

theorem gather_sound {start n : Nat} {ds : List Digit} (read : gather start ds = (n,[])) :
    n = Digits.toNatFrom start ds := by
  induction ds generalizing start with
  | nil => cases read; rfl
  | cons d ds ih =>
      rw [gather] at read
      split at read
      · exact ih read
      · cases read

namespace NumberText

theorem ofInt_wellFormed (n : Int) : (ofInt n).WellFormed :=
  ⟨Digits.ofNat_whole n.natAbs,by simp [ofInt],by simp [ofInt]⟩

theorem value_ofInt {n : Int} (low : -0x8000_0000_0000_0000 ≤ n) (high : n < 0x1_0000_0000_0000_0000) :
    (ofInt n).value? = some (.whole n) := by
  have spelled := Digits.toNat_ofNat n.natAbs
  have gathered := gather_all 0 (Digits.ofNat n.natAbs) (by rw [← Digits.toNat,spelled]; omega)
  rw [← Digits.toNat,spelled] at gathered
  simp only [value?,ofInt,gathered]
  by_cases negative : n < 0
  · have bounded : 0 < n.natAbs ∧ n.natAbs ≤ 0x8000_0000_0000_0000 := by omega
    have back : -(n.natAbs : Int) = n := by omega
    simp only [negative,decide_true,Option.isNone_none,Bool.and_self,if_true,Bool.not_true,
      Bool.false_eq_true,if_false,bounded,back]
  · have back : (n.natAbs : Int) = n := by omega
    simp only [negative,decide_false,Option.isNone_none,Bool.and_self,if_true,Bool.not_false,back]

theorem value_whole {t : NumberText} {n : Int} (read : t.value? = some (.whole n)) :
    t.fraction = none ∧ t.exponent = none ∧
      ((t.negative = false ∧ n = Digits.toNat t.whole) ∨
        (t.negative = true ∧ 0 < Digits.toNat t.whole ∧ n = -(Digits.toNat t.whole : Int))) := by
  have noReal : ∀ x : Option (Binary .double), x.map Number.real ≠ some (.whole n) := by
    intro x
    cases x <;> simp
  unfold value? at read
  split at read
  · rename_i plain
    simp only [Bool.and_eq_true,Option.isNone_iff_eq_none] at plain
    refine ⟨plain.1,plain.2,?_⟩
    split at read
    · rename_i sum gathered
      rw [Digits.toNat,← gather_sound gathered]
      split at read
      · rename_i unsigned
        cases read
        exact .inl ⟨by simpa using unsigned,rfl⟩
      · rename_i negative
        split at read
        · rename_i bounded
          cases read
          simp only [Bool.and_eq_true,decide_eq_true_eq] at bounded
          exact .inr ⟨by simpa using negative,bounded.1,rfl⟩
        · cases read
    · exact absurd read (noReal _)
  · exact absurd read (noReal _)

end NumberText
end Json
end Switchboard
