import Hotplug.Decimal.Shortest
import Hotplug.Proofs.Decimal.Rounding
/-!
The shortest decimal of a binary number lies at most half a unit above it. That it is the
shortest, and that it rounds to the number, is not covered.
-/
namespace Hotplug.Decimal

variable {x : Binary64} {d : Scientific}

def Scientific.value (d : Scientific) : ℚ := d.digits * 10 ^ d.exponent

theorem Scientific.ratio_pos (d : Scientific) : 0 < d.ratio.2 := by
  unfold ratio
  split
  · exact Nat.one_pos
  · exact Nat.pow_pos (by decide)

theorem Scientific.ratio_eq (d : Scientific) : (d.ratio.1 : ℚ) / d.ratio.2 = d.value := by
  obtain ⟨digits, exponent⟩ := d
  cases exponent with
  | ofNat n => simp [ratio, value]
  | negSucc n => simp [ratio, value, zpow_negSucc, div_eq_mul_inv]

namespace Binary64

def upper (x : Binary64) : ℚ := (x.significand + 1 / 2) * 2 ^ x.exponent

theorem upper_nonneg (x : Binary64) : 0 ≤ x.upper := by
  unfold upper
  positivity

theorem le_upper_of_near {num den : Nat} (pos : 0 < den) (h : x.near num den = true) :
    (num : ℚ) / den ≤ x.upper := by
  have bottom : (0 : ℚ) < (scaled num den (2 - x.exponent)).2 := by
    exact_mod_cast scaled_pos pos _
  have quotient : ((scaled num den (2 - x.exponent)).1 : ℚ) / (scaled num den (2 - x.exponent)).2 =
      num / den * 2 ^ (2 - x.exponent) := scaled_eq pos _
  have most : (scaled num den (2 - x.exponent)).1 ≤
      (4 * x.significand + 2) * (scaled num den (2 - x.exponent)).2 := by
    unfold near ends at h
    simp only at h
    split at h
    · simp only [Bool.and_eq_true, decide_eq_true_eq] at h
      exact h.2
    · simp only [Bool.and_eq_true, decide_eq_true_eq] at h
      exact h.2.le
  have most : ((scaled num den (2 - x.exponent)).1 : ℚ) ≤
      (4 * x.significand + 2) * (scaled num den (2 - x.exponent)).2 := by
    exact_mod_cast most
  rw [← div_le_iff₀ bottom, quotient, zpow_sub₀ (by norm_num : (2 : ℚ) ≠ 0), ← mul_div_assoc,
    div_le_iff₀ (by positivity)] at most
  norm_num at most
  unfold upper
  linarith

theorem near_of_onGrid {order : Int} {count : Nat} (h : x.onGrid? order count = some d) :
    x.near d.ratio.1 d.ratio.2 = true := by
  unfold onGrid? at h
  simp only at h
  split at h
  · rename_i below above
    split at h
    · obtain rfl := Option.some.inj h
      exact below
    · obtain rfl := Option.some.inj h
      exact above
  · rename_i below above
    obtain rfl := Option.some.inj h
    exact below
  · rename_i below above
    obtain rfl := Option.some.inj h
    exact above
  · cases h

theorem value_stripZeros (fuel : Nat) (d : Scientific) : (stripZeros fuel d).value = d.value := by
  induction fuel generalizing d with
  | zero => rfl
  | succ fuel ih =>
    unfold stripZeros
    split
    · rename_i zero
      rw [ih]
      have whole : 10 * (d.digits / 10) = d.digits := by omega
      have cast : (10 : ℚ) * ((d.digits / 10 : ℕ) : ℚ) = d.digits := by exact_mod_cast whole
      unfold Scientific.value
      rw [zpow_add_one₀ (by norm_num : (10 : ℚ) ≠ 0), ← cast]
      ring
    · rfl

theorem shortest_le (x : Binary64) : x.shortest.value ≤ x.upper := by
  unfold shortest
  split
  · simpa [Scientific.value] using x.upper_nonneg
  · simp only
    split
    · rename_i d found
      rw [value_stripZeros]
      obtain ⟨count, -, taken⟩ := List.exists_of_findSome?_eq_some found
      rw [← d.ratio_eq]
      exact le_upper_of_near d.ratio_pos (near_of_onGrid taken)
    · simpa [Scientific.value] using x.upper_nonneg

end Binary64

end Hotplug.Decimal
