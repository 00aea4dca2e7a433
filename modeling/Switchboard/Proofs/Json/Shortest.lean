import Switchboard.Proofs.Json.Number

namespace Switchboard

namespace Digits

theorem toNatFrom_bounds (start : Nat) (ds : List Digit) :
    start * Nat.pow 10 ds.length ≤ toNatFrom start ds ∧ toNatFrom start ds < (start + 1) * Nat.pow 10 ds.length := by
  induction ds generalizing start with
  | nil =>
      change start * 1 ≤ start ∧ start < (start + 1) * 1
      omega
  | cons d ds ih =>
      obtain ⟨low,high⟩ := ih (10 * start + d.val)
      have power : Nat.pow 10 (ds.length + 1) = 10 * Nat.pow 10 ds.length := Nat.mul_comm _ _
      have digit := d.isLt
      change start * Nat.pow 10 (ds.length + 1) ≤ toNatFrom (10 * start + d.val) ds ∧
        toNatFrom (10 * start + d.val) ds < (start + 1) * Nat.pow 10 (ds.length + 1)
      rw [power,← Nat.mul_assoc,← Nat.mul_assoc]
      refine ⟨?_,?_⟩
      · exact Nat.le_trans (Nat.mul_le_mul_right _ (by omega)) low
      · exact Nat.lt_of_lt_of_le high (Nat.mul_le_mul_right _ (by omega))

theorem ofNat_leading {n : Nat} (positive : 0 < n) : ∃ d rest, ofNat n = d :: rest ∧ 0 < d.val :=
  ofNatIn_leading Nat.lt_log2_self positive

theorem ofNat_bounds {n : Nat} (positive : 0 < n) :
    ∃ count, (ofNat n).length = count + 1 ∧ Nat.pow 10 count ≤ n ∧ n < Nat.pow 10 (count + 1) := by
  obtain ⟨d,rest,written,leading⟩ := ofNat_leading positive
  have value : toNatFrom d.val rest = n := by
    rw [← toNat_ofNat n,written]
    simp [toNat,toNatFrom]
  have bounds := toNatFrom_bounds d.val rest
  rw [value] at bounds
  refine ⟨rest.length,by rw [written,List.length_cons],?_,?_⟩
  · exact Nat.le_trans (Nat.le_mul_of_pos_left _ leading) bounds.1
  · have power : Nat.pow 10 (rest.length + 1) = 10 * Nat.pow 10 rest.length := Nat.mul_comm _ _
    rw [power]
    exact Nat.lt_of_lt_of_le bounds.2 (Nat.mul_le_mul_right _ d.isLt)

end Digits

namespace Scientific

-- Ten to the power is at most the ratio.
def Reaches (num den : Nat) (p : Int) : Prop := (tenTo p).1 * den ≤ num * (tenTo p).2

variable {num den : Nat} {p : Int}

theorem tenTo_natural (n : Nat) : tenTo n = (Nat.pow 10 n,1) := by
  rw [tenTo,if_pos (Int.natCast_nonneg n),Int.toNat_natCast]

theorem tenTo_negative (n : Nat) : tenTo (-((n + 1 : Nat) : Int)) = (1,Nat.pow 10 (n + 1)) := by
  rw [tenTo,if_neg (by omega),Int.neg_neg,Int.toNat_natCast]

theorem tenTo_positive (p : Int) : 0 < (tenTo p).1 := by
  unfold tenTo
  split
  · exact Nat.pow_pos (by decide)
  · exact Nat.one_pos

theorem floorLog10_reaches (positive : 0 < num) (divides : 0 < den) : Reaches num den (floorLog10 num den) := by
  unfold floorLog10
  split
  · rename_i atLeast
    have quotient : 0 < num / den := Nat.div_pos atLeast divides
    obtain ⟨count,length,low,_⟩ := Digits.ofNat_bounds quotient
    have power : (digitCount (num / den) : Int) - 1 = count := by
      rw [digitCount,if_neg (by omega),length]
      omega
    rw [power,Reaches,tenTo_natural,Nat.mul_one]
    exact Nat.le_trans (Nat.mul_le_mul_right den low) (Nat.div_mul_le_self num den)
  · rename_i below
    have quotient : 0 < (den - 1) / num := Nat.div_pos (by omega) positive
    obtain ⟨count,length,_,high⟩ := Digits.ofNat_bounds quotient
    have power : digitCount ((den - 1) / num) = count + 1 := by
      rw [digitCount,if_neg (by omega),length]
    have bound : den - 1 < Nat.pow 10 (count + 1) * num := (Nat.div_lt_iff_lt_mul positive).mp high
    rw [power,Reaches,tenTo_negative,Nat.one_mul,Nat.mul_comm num]
    exact Nat.le_of_pred_lt bound

theorem tenTo_lower (p : Int) : (tenTo (p - 1)).1 ≤ (tenTo p).1 ∧ (tenTo p).2 ≤ (tenTo (p - 1)).2 := by
  have grows {m n : Nat} (le : m ≤ n) : Nat.pow 10 m ≤ Nat.pow 10 n := Nat.pow_le_pow_right (by decide) le
  unfold tenTo
  by_cases positive : 0 ≤ p - 1
  · rw [if_pos positive,if_pos (show 0 ≤ p by omega)]
    exact ⟨grows (by omega),Nat.le_refl 1⟩
  rw [if_neg positive]
  by_cases zero : 0 ≤ p
  · rw [if_pos zero]
    exact ⟨Nat.pow_pos (by decide),Nat.pow_pos (by decide)⟩
  · rw [if_neg zero]
    exact ⟨Nat.le_refl 1,grows (by omega)⟩

theorem reaches_lower (reaches : Reaches num den p) : Reaches num den (p - 1) := by
  obtain ⟨smaller,larger⟩ := tenTo_lower p
  exact Nat.le_trans (Nat.mul_le_mul_right den smaller) (Nat.le_trans reaches (Nat.mul_le_mul_left num larger))

theorem below_positive (reaches : Reaches num den p) (divides : 0 < den) :
    0 < num * (tenTo p).2 / ((tenTo p).1 * den) :=
  Nat.div_pos reaches (Nat.mul_pos (tenTo_positive p) divides)

theorem roundDiv_least (n d : Nat) : n / d ≤ Binary.roundDiv n d := by
  unfold Binary.roundDiv
  split
  · exact Nat.le_refl _
  split
  · exact Nat.le_succ _
  · exact Nat.le_add_right _ _

theorem onGrid_positive {low high k : Nat} {closed : Bool} (reaches : Reaches num den p) (divides : 0 < den)
    (found : onGrid low num high den closed p = some k) : 0 < k := by
  have below := below_positive reaches divides
  unfold onGrid at found
  dsimp only at found
  split at found
  · cases found
  · cases found
    exact below
  · cases found
    exact Nat.succ_pos _
  · cases found
    exact Nat.lt_of_lt_of_le below (roundDiv_least _ _)

-- The grids get finer, so what the coarsest reaches they all reach.
theorem search_positive {low high : Nat} {closed : Bool} (reaches : Reaches num den p) (divides : 0 < den) (tries : Nat) :
    0 < (search low num high den closed p tries).1 := by
  induction tries generalizing p with
  | zero => exact Nat.lt_of_lt_of_le (below_positive reaches divides) (roundDiv_least _ _)
  | succ tries ih =>
      rw [search]
      split
      · rename_i k found
        exact onGrid_positive reaches divides found
      · exact ih (reaches_lower reaches)

-- No zero stands in front of other digits, and zero has no exponent.
def Leads (s : Scientific) : Prop :=
  ∃ d rest, s.digits = d :: rest ∧ (0 < d.val ∨ (rest = [] ∧ s.exponent = 0))

theorem digits_lead {found : Nat × Int} (positive : 0 < found.1) :
    Leads ⟨strip (Digits.ofNat found.1),found.2 + (Digits.ofNat found.1).length - 1⟩ := by
  obtain ⟨d,rest,written,leading⟩ := Digits.ofNat_leading positive
  rw [written]
  exact ⟨d,_,rfl,.inl leading⟩

end Scientific

theorem Binary.units_positive {f : Format} {x : Binary f} (nonzero : ¬ x.isZero = true) : 0 < x.units := by
  have held : x.magnitude ≠ 0 := by simpa [isZero] using nonzero
  refine Nat.mul_pos ?_ (Nat.pow_pos (by decide))
  unfold significand
  split
  · rename_i subnormal
    have whole := Nat.div_add_mod x.magnitude (Nat.pow 2 f.fractionBits)
    unfold exponentField at subnormal
    unfold fraction
    rw [subnormal] at whole
    omega
  · have power : 0 < Nat.pow 2 f.fractionBits := Nat.pow_pos (by decide)
    omega

theorem Scientific.shortest_leads {f : Format} (x : Binary f) : (shortest x).Leads := by
  unfold shortest
  split
  · exact ⟨Digits.zero,[],rfl,.inr ⟨rfl,rfl⟩⟩
  · rename_i nonzero
    have divides : 0 < 4 * Nat.pow 2 f.unitScale := Nat.mul_pos (by decide) (Nat.pow_pos (by decide))
    have numerator : 0 < 4 * x.units := Nat.mul_pos (by decide) (Binary.units_positive nonzero)
    exact digits_lead (search_positive (floorLog10_reaches numerator divides) divides 17)

namespace Json

variable {s : Scientific}

theorem positional_wellFormed (leads : s.Leads) (negative : Bool) : (positional negative s).WellFormed := by
  obtain ⟨d,rest,written,leading⟩ := leads
  unfold positional
  split
  · refine ⟨⟨Digits.zero,[],rfl,.inl rfl⟩,?_,by simp⟩
    simp [written]
  · refine ⟨?_,?_,by simp⟩
    · rcases leading with positive | ⟨rfl,exponent⟩
      · rw [written]
        exact ⟨d,_,rfl,.inr positive⟩
      · rw [written,exponent]
        exact ⟨d,[],rfl,.inl rfl⟩
    · intro ds held
      cases held
      split
      · simp
      · rename_i present
        simpa using present

theorem withExponent_wellFormed (leads : s.Leads) (negative : Bool) : (withExponent negative s).WellFormed := by
  obtain ⟨d,rest,written,_⟩ := leads
  refine ⟨⟨d,[],by rw [withExponent,written]; rfl,.inl rfl⟩,?_,?_⟩
  · intro ds held
    unfold withExponent at held
    dsimp only at held
    split at held
    · cases held
    · rename_i present
      cases held
      simpa using present
  · intro e held
    cases held
    obtain ⟨first,others,digits,_⟩ := Digits.ofNat_whole s.exponent.natAbs
    rw [digits]
    simp

theorem NumberText.ofBinary_wellFormed {f : Format} (x : Binary f) : (ofBinary x).WellFormed := by
  have leads := Scientific.shortest_leads x
  unfold ofBinary
  dsimp only
  split
  · exact positional_wellFormed leads x.isNegative
  · exact withExponent_wellFormed leads x.isNegative

end Json
end Switchboard
