import Hotplug.Decimal.Binary64
import Mathlib.Algebra.Order.Field.Power
import Mathlib.Data.Rat.Cast.Order
import Mathlib.Tactic.FieldSimp
import Mathlib.Tactic.Linarith
import Mathlib.Tactic.NormNum
import Mathlib.Tactic.Positivity
import Mathlib.Tactic.Ring
/-!
How far rounding to a binary number may go, in rational numbers: the order of a quotient, an
upper bound on the rounded number, and the quotients whose rounded number is not infinite. How
near the rounded number is from below is not covered.
-/
namespace Hotplug.Decimal.Binary64

variable {num den n d k m : Nat} {x y : Binary64}

structure Valid (x : Binary64) : Prop where
  significand_lt : x.significand < 2 ^ 53
  exponent_ge : -1074 ≤ x.exponent
  exponent_le : x.exponent ≤ 971

def magnitude (x : Binary64) : ℚ := x.significand * 2 ^ x.exponent

theorem magnitude_nonneg (x : Binary64) : 0 ≤ x.magnitude := by
  unfold magnitude
  positivity

theorem scaled_pos (pos : 0 < den) (shift : Int) : 0 < (scaled num den shift).2 := by
  cases shift with
  | ofNat n => exact pos
  | negSucc n => exact Nat.mul_pos pos (Nat.pow_pos (by decide))

theorem scaled_eq (pos : 0 < den) (shift : Int) :
    ((scaled num den shift).1 : ℚ) / (scaled num den shift).2 = num / den * 2 ^ shift := by
  have nonzero : (den : ℚ) ≠ 0 := by positivity
  cases shift with
  | ofNat n =>
    simp only [scaled, Int.ofNat_eq_natCast, zpow_natCast, Nat.pow_eq, Nat.cast_mul, Nat.cast_pow,
      Nat.cast_ofNat]
    ring
  | negSucc n =>
    simp only [scaled, zpow_negSucc, Nat.pow_eq, Nat.cast_mul, Nat.cast_pow, Nat.cast_ofNat]
    field_simp

theorem ratio_pos (x : Binary64) : 0 < x.ratio.2 := scaled_pos Nat.one_pos _

theorem ratio_eq (x : Binary64) : (x.ratio.1 : ℚ) / x.ratio.2 = x.magnitude := by
  have eq : ((scaled x.significand 1 x.exponent).1 : ℚ) / (scaled x.significand 1 x.exponent).2 =
      x.significand / (1 : ℕ) * 2 ^ x.exponent := scaled_eq Nat.one_pos x.exponent
  simpa [ratio, magnitude] using eq

theorem order_bounds (present : 0 < num) (pos : 0 < den) :
    (2 : ℚ) ^ binaryOrder num den ≤ num / den ∧
      (num : ℚ) / den < 2 ^ (binaryOrder num den + 1) := by
  have hden : (0 : ℚ) < den := by exact_mod_cast pos
  -- the logarithms tell the order up to one
  have num_ge : (2 : ℚ) ^ (num.log2 : ℤ) ≤ num := by
    rw [zpow_natCast]
    exact_mod_cast Nat.log2_self_le present.ne'
  have num_lt : (num : ℚ) < 2 ^ ((num.log2 : ℤ) + 1) := by
    exact_mod_cast Nat.lt_log2_self
  have den_ge : (2 : ℚ) ^ (den.log2 : ℤ) ≤ den := by
    rw [zpow_natCast]
    exact_mod_cast Nat.log2_self_le pos.ne'
  have den_lt : (den : ℚ) < 2 ^ ((den.log2 : ℤ) + 1) := by
    exact_mod_cast Nat.lt_log2_self
  have two : (2 : ℚ) ≠ 0 := by norm_num
  set e : ℤ := (num.log2 : ℤ) - den.log2 with he
  have low : (2 : ℚ) ^ (e - 1) ≤ num / den := by
    rw [le_div_iff₀ hden]
    calc (2 : ℚ) ^ (e - 1) * den ≤ 2 ^ (e - 1) * 2 ^ ((den.log2 : ℤ) + 1) := by gcongr
      _ = 2 ^ (num.log2 : ℤ) := by rw [← zpow_add₀ two]; congr 1; omega
      _ ≤ num := num_ge
  have high : (num : ℚ) / den < 2 ^ (e + 1) := by
    rw [div_lt_iff₀ hden]
    calc (num : ℚ) < 2 ^ ((num.log2 : ℤ) + 1) := num_lt
      _ = 2 ^ (e + 1) * 2 ^ (den.log2 : ℤ) := by rw [← zpow_add₀ two]; congr 1; omega
      _ ≤ 2 ^ (e + 1) * den := by gcongr
  have quotient : ((scaled num den (-e)).1 : ℚ) / (scaled num den (-e)).2 =
      num / den * 2 ^ (-e) := scaled_eq pos (-e)
  have bottom : (0 : ℚ) < (scaled num den (-e)).2 := by exact_mod_cast scaled_pos pos (-e)
  have less : (scaled num den (-e)).1 < (scaled num den (-e)).2 ↔ (num : ℚ) / den < 2 ^ e := by
    rw [← Nat.cast_lt (α := ℚ), ← div_lt_one bottom, quotient, zpow_neg, ← div_eq_mul_inv,
      div_lt_one (by positivity)]
  have order : binaryOrder num den =
      if (scaled num den (-e)).1 < (scaled num den (-e)).2 then e - 1 else e := rfl
  rw [order]
  split
  · rename_i small
    exact ⟨low, by simpa using less.mp small⟩
  · rename_i large
    exact ⟨not_lt.mp fun small => large (less.mpr small), high⟩

theorem twice_roundDiv_le : 2 * (d * roundDiv n d) ≤ 2 * n + d := by
  have split := Nat.div_add_mod n d
  have step : d * (n / d + 1) = d * (n / d) + d := Nat.mul_succ d (n / d)
  unfold roundDiv
  simp only
  split
  · omega
  · split
    · rw [step]
      omega
    · rcases Nat.mod_two_eq_zero_or_one (n / d) with even | odd
      · rw [even, Nat.add_zero]
        omega
      · rw [odd, step]
        omega

theorem roundDiv_le (h : 2 * n < (2 * k + 1) * d) : roundDiv n d ≤ k := by
  have twice := @twice_roundDiv_le n d
  have below : d * (2 * roundDiv n d) < d * (2 * (k + 1)) := by
    calc d * (2 * roundDiv n d) = 2 * (d * roundDiv n d) := by ring
      _ ≤ 2 * n + d := twice
      _ < (2 * k + 1) * d + d := by omega
      _ = d * (2 * (k + 1)) := by ring
  have less := Nat.lt_of_mul_lt_mul_left below
  omega

theorem le_twice_roundDiv (pos : 0 < d) : 2 * n ≤ 2 * (d * roundDiv n d) + d := by
  have split := Nat.div_add_mod n d
  have rest := Nat.mod_lt n pos
  have step : d * (n / d + 1) = d * (n / d) + d := Nat.mul_succ d (n / d)
  unfold roundDiv
  simp only
  split
  · omega
  · split
    · rw [step]
      omega
    · rcases Nat.mod_two_eq_zero_or_one (n / d) with even | odd
      · rw [even, Nat.add_zero]
        omega
      · rw [odd, step]
        omega

theorem roundDiv_bound (pos : 0 < d) : (roundDiv n d : ℚ) ≤ n / d + 1 / 2 := by
  have twice : (2 * (d * roundDiv n d) : ℚ) ≤ 2 * n + d := by exact_mod_cast twice_roundDiv_le
  have hd : (0 : ℚ) < d := by exact_mod_cast pos
  rw [div_add_div _ _ hd.ne' two_ne_zero, le_div_iff₀ (by positivity)]
  linarith

theorem bound_roundDiv (pos : 0 < d) : (n : ℚ) / d - 1 / 2 ≤ roundDiv n d := by
  have twice : (2 * n : ℚ) ≤ 2 * (d * roundDiv n d) + d := by exact_mod_cast le_twice_roundDiv pos
  have hd : (0 : ℚ) < d := by exact_mod_cast pos
  rw [div_sub_div _ _ hd.ne' two_ne_zero, div_le_iff₀ (by positivity)]
  linarith

def grid (num den : Nat) : Int := max (binaryOrder num den - 52) leastExponent

def inUnits (num den : Nat) : Nat × Nat := scaled num den (-grid num den)

theorem inUnits_pos (pos : 0 < den) : 0 < (inUnits num den).2 := scaled_pos pos _

theorem inUnits_eq (pos : 0 < den) :
    ((inUnits num den).1 : ℚ) / (inUnits num den).2 = num / den / 2 ^ grid num den := by
  rw [inUnits, scaled_eq pos, zpow_neg, ← div_eq_mul_inv]

def units (num den : Nat) : Nat :=
  roundDiv (inUnits num den).1 (inUnits num den).2

theorem units_bound (pos : 0 < den) :
    (units num den : ℚ) * 2 ^ grid num den ≤ num / den + 2 ^ grid num den / 2 := by
  have bound : (units num den : ℚ) ≤ (inUnits num den).1 / (inUnits num den).2 + 1 / 2 :=
    roundDiv_bound (inUnits_pos pos)
  rw [inUnits_eq pos] at bound
  calc (units num den : ℚ) * 2 ^ grid num den
      ≤ (num / den / 2 ^ grid num den + 1 / 2) * 2 ^ grid num den := by gcongr
    _ = num / den + 2 ^ grid num den / 2 := by field_simp

theorem bound_units (pos : 0 < den) :
    (num : ℚ) / den - 2 ^ grid num den / 2 ≤ units num den * 2 ^ grid num den := by
  have bound : ((inUnits num den).1 : ℚ) / (inUnits num den).2 - 1 / 2 ≤ units num den :=
    bound_roundDiv (inUnits_pos pos)
  rw [inUnits_eq pos] at bound
  calc (num : ℚ) / den - 2 ^ grid num den / 2
      = (num / den / 2 ^ grid num den - 1 / 2) * 2 ^ grid num den := by field_simp
    _ ≤ units num den * 2 ^ grid num den := by gcongr

/-- A quotient below the middle of two numbers of the grid is rounded to the lower one at most. -/
theorem units_le (pos : 0 < den) (h : (num : ℚ) / den < (k + 1 / 2) * 2 ^ grid num den) :
    units num den ≤ k := by
  apply roundDiv_le
  have bottom : (0 : ℚ) < (inUnits num den).2 := by exact_mod_cast inUnits_pos pos
  have small : ((inUnits num den).1 : ℚ) < (k + 1 / 2) * (inUnits num den).2 := by
    rwa [← div_lt_iff₀ bottom, inUnits_eq pos, div_lt_iff₀ (by positivity)]
  have twice : (2 * (inUnits num den).1 : ℚ) < (2 * k + 1) * (inUnits num den).2 := by
    linarith
  exact_mod_cast twice

theorem units_le_carry (present : 0 < num) (pos : 0 < den) : units num den ≤ 2 ^ 53 := by
  apply units_le pos
  have below := (order_bounds present pos).2
  have order : binaryOrder num den + 1 ≤ grid num den + 53 := by
    unfold grid
    omega
  calc (num : ℚ) / den < 2 ^ (binaryOrder num den + 1) := below
    _ ≤ 2 ^ (grid num den + 53) := zpow_le_zpow_right₀ (by norm_num) order
    _ = 2 ^ 53 * 2 ^ grid num den := by
        rw [zpow_add₀ (by norm_num : (2 : ℚ) ≠ 0), mul_comm]
        norm_num
    _ ≤ ((2 ^ 53 : ℕ) + 1 / 2) * 2 ^ grid num den := by
        gcongr
        norm_num

theorem ofRatio_eq (present : 0 < num) : ofRatio num den =
    if units num den = 2 * hiddenBit then
      if grid num den + 1 > greatestExponent then none
      else some ⟨false, hiddenBit, grid num den + 1⟩
    else if grid num den > greatestExponent then none
    else some ⟨false, units num den, grid num den⟩ := by
  unfold ofRatio
  rw [if_neg present.ne']
  show _ = _
  by_cases carry : units num den = 2 * hiddenBit
  · simp only [carry, if_true]
    have carry' := carry
    unfold units inUnits grid at carry'
    simp only [carry', if_true]
    rfl
  · have carry' := carry
    unfold units inUnits grid at carry'
    simp only [carry, carry', if_false]
    rfl

theorem ofRatio_cases (present : 0 < num) (pos : 0 < den) (h : ofRatio num den = some y) :
    y.Valid ∧ y.magnitude = units num den * 2 ^ grid num den := by
  have least : -1074 ≤ grid num den := le_max_right _ _
  have carry_eq : 2 * hiddenBit = 2 ^ 53 := by decide
  rw [ofRatio_eq present, carry_eq] at h
  have most := units_le_carry present pos
  split at h
  · rename_i carry
    split at h
    · cases h
    · rename_i fits
      obtain rfl := Option.some.inj h
      have exponent_le : grid num den + 1 ≤ 971 := not_lt.mp fits
      have exponent_ge : -1074 ≤ grid num den + 1 := by omega
      have bit_lt : hiddenBit < 2 ^ 53 := by decide
      refine ⟨⟨bit_lt, exponent_ge, exponent_le⟩, ?_⟩
      rw [magnitude, carry, zpow_add_one₀ (by norm_num : (2 : ℚ) ≠ 0)]
      norm_num [hiddenBit]
      ring
  · rename_i uncarried
    split at h
    · cases h
    · rename_i fits
      obtain rfl := Option.some.inj h
      exact ⟨⟨lt_of_le_of_ne most uncarried, least, not_lt.mp fits⟩, rfl⟩

theorem valid_zero : Valid zero := ⟨by decide, by decide, by decide⟩

theorem Valid.negate (valid : x.Valid) : x.negate.Valid :=
  ⟨valid.significand_lt, valid.exponent_ge, valid.exponent_le⟩

theorem valid_of_ofRatio (pos : 0 < den) (h : ofRatio num den = some y) : y.Valid := by
  rcases Nat.eq_zero_or_pos num with rfl | present
  · obtain rfl : zero = y := by simpa [ofRatio] using h
    exact valid_zero
  · exact (ofRatio_cases present pos h).1

theorem unit_le (pos : 0 < den) (large : 1 ≤ (num : ℚ) / den) :
    0 < num ∧ (2 : ℚ) ^ grid num den ≤ num / den / 2 ^ 52 := by
  have present : 0 < num := by
    by_contra none
    obtain rfl : num = 0 := by omega
    norm_num at large
  obtain ⟨low, high⟩ := order_bounds present pos
  have order : 0 ≤ binaryOrder num den := by
    by_contra negative
    have small : (2 : ℚ) ^ (binaryOrder num den + 1) ≤ 2 ^ (0 : ℤ) :=
      zpow_le_zpow_right₀ (by norm_num) (by omega)
    rw [zpow_zero] at small
    linarith
  have eq : grid num den = binaryOrder num den - 52 := by
    unfold grid leastExponent
    omega
  refine ⟨present, ?_⟩
  rw [eq, zpow_sub₀ (by norm_num : (2 : ℚ) ≠ 0)]
  norm_num
  linarith

/-- Rounding moves a quotient by half a unit at most, which is little unless it is tiny. -/
theorem ofRatio_le (pos : 0 < den) (large : 1 ≤ (num : ℚ) / den) (h : ofRatio num den = some y) :
    y.magnitude ≤ num / den * (1 + 1 / 2 ^ 53) := by
  obtain ⟨present, unit⟩ := unit_le pos large
  have bound := @units_bound num den pos
  rw [(ofRatio_cases present pos h).2]
  linarith

theorem half_le_ofRatio (pos : 0 < den) (large : 1 ≤ (num : ℚ) / den)
    (h : ofRatio num den = some y) : (num : ℚ) / den / 2 ≤ y.magnitude := by
  obtain ⟨present, unit⟩ := unit_le pos large
  have bound := @bound_units num den pos
  rw [(ofRatio_cases present pos h).2]
  linarith

theorem ofRatio_le_twice (pos : 0 < den) (h : ofRatio num den = some y) :
    y.magnitude ≤ 2 * (num / den) + 1 := by
  rcases Nat.eq_zero_or_pos num with rfl | present
  · obtain rfl : zero = y := by simpa [ofRatio] using h
    norm_num [magnitude, zero]
  · obtain ⟨low, -⟩ := order_bounds present pos
    have unit : (2 : ℚ) ^ grid num den ≤ 2 ^ binaryOrder num den + 1 := by
      unfold grid
      rcases max_cases (binaryOrder num den - 52) leastExponent with ⟨eq, -⟩ | ⟨eq, -⟩
      · have smaller : (2 : ℚ) ^ (binaryOrder num den - 52) ≤ 2 ^ binaryOrder num den :=
          zpow_le_zpow_right₀ (by norm_num) (by omega)
        rw [eq]
        linarith
      · have tiny : (2 : ℚ) ^ leastExponent ≤ 2 ^ (0 : ℤ) :=
          zpow_le_zpow_right₀ (by norm_num) (by decide)
        have positive : (0 : ℚ) < 2 ^ binaryOrder num den := by positivity
        rw [eq]
        rw [zpow_zero] at tiny
        linarith
    have bound := @units_bound num den pos
    have quotient : (0 : ℚ) ≤ num / den := by positivity
    rw [(ofRatio_cases present pos h).2]
    linarith

/-- The least quotients that are infinite once they are rounded. -/
def infinite : ℚ := (2 ^ 53 - 1 / 2) * 2 ^ (971 : ℤ)

theorem ofRatio_finite (pos : 0 < den) (small : (num : ℚ) / den < infinite) :
    ∃ y, ofRatio num den = some y := by
  rcases Nat.eq_zero_or_pos num with rfl | present
  · exact ⟨zero, by simp [ofRatio]⟩
  · have order : binaryOrder num den ≤ 1023 := by
      by_contra large
      have top : (2 : ℚ) ^ (1024 : ℤ) ≤ 2 ^ binaryOrder num den :=
        zpow_le_zpow_right₀ (by norm_num) (by omega)
      have split : (2 : ℚ) ^ (1024 : ℤ) = 2 ^ (53 : ℤ) * 2 ^ (971 : ℤ) := by
        rw [← zpow_add₀ (by norm_num : (2 : ℚ) ≠ 0)]
        rfl
      have low := (order_bounds present pos).1
      have unit : (0 : ℚ) < 2 ^ (971 : ℤ) := by positivity
      rw [split] at top
      unfold infinite at small
      generalize (2 : ℚ) ^ (971 : ℤ) = u at *
      norm_num at top small
      linarith only [top, low, small, unit]
    have least : grid num den ≤ 971 := by
      unfold grid leastExponent
      omega
    rw [ofRatio_eq present]
    split
    · rename_i carry
      split
      · rename_i above
        have top : grid num den = 971 := by
          have above : grid num den + 1 > 971 := above
          omega
        have units_le : units num den ≤ 2 ^ 53 - 1 := by
          apply units_le pos
          rw [top]
          refine lt_of_lt_of_le small (le_of_eq ?_)
          norm_num [infinite]
        rw [carry] at units_le
        norm_num [hiddenBit] at units_le
      · exact ⟨_, rfl⟩
    · have fits : ¬ grid num den > greatestExponent := not_lt.mpr least
      rw [if_neg fits]
      exact ⟨_, rfl⟩

end Hotplug.Decimal.Binary64
