import Hotplug.Proofs.Decimal.Shortest
import Hotplug.Proofs.Json.Layout
/-!
Which numbers written numbers are read as. An integer of 64 bits is read as itself; a binary
number is read as some binary number, never as an infinite one, though not always as itself. How
far the number that is read may be off is not covered.
-/
namespace Hotplug.Json

open Hotplug.Decimal

/-- A number that some numeral stands for. -/
def Number.Fit : Number → Prop
  | .int n => -2 ^ 63 ≤ n ∧ n < 2 ^ 64
  | .real x => x.Valid

namespace Numeral

variable {n m : Nat} {ds rest : List Nat} {x y z : Binary64}

def appendDigits (n : Nat) (digits : List Nat) : Nat := digits.foldl (fun n d => n * 10 + d) n

theorem le_appendDigits (n : Nat) (ds : List Nat) : n * 10 ^ ds.length ≤ appendDigits n ds := by
  induction ds generalizing n with
  | nil => simp [appendDigits]
  | cons d ds ih =>
    calc n * 10 ^ (ds.length + 1) = n * 10 * 10 ^ ds.length := by ring
      _ ≤ (n * 10 + d) * 10 ^ ds.length := Nat.mul_le_mul_right _ (Nat.le_add_right _ _)
      _ ≤ appendDigits (n * 10 + d) ds := ih (n * 10 + d)

theorem appendDigits_lt (small : ∀ d ∈ ds, d < 10) :
    appendDigits n ds < (n + 1) * 10 ^ ds.length := by
  induction ds generalizing n with
  | nil => simp [appendDigits]
  | cons d ds ih =>
    have first := small d (by simp)
    calc appendDigits (n * 10 + d) ds < (n * 10 + d + 1) * 10 ^ ds.length :=
          ih fun e mem => small e (by simp [mem])
      _ ≤ ((n + 1) * 10) * 10 ^ ds.length := Nat.mul_le_mul_right _ (by omega)
      _ = (n + 1) * 10 ^ (ds.length + 1) := by ring

theorem gather_bounds (h : gather n ds = (m, rest)) (word : n ≤ greatestWord) :
    m ≤ greatestWord ∧ rest.length ≤ ds.length ∧ m * 10 ^ rest.length ≤ appendDigits n ds := by
  induction ds generalizing n with
  | nil =>
    obtain ⟨rfl, rfl⟩ := Prod.mk.inj h
    exact ⟨word, le_refl _, le_appendDigits n []⟩
  | cons d ds ih =>
    unfold gather at h
    split at h
    · rename_i fits
      obtain ⟨most, shorter, bound⟩ := ih h fits
      exact ⟨most, Nat.le_succ_of_le shorter, bound⟩
    · obtain ⟨rfl, rfl⟩ := Prod.mk.inj h
      exact ⟨word, le_refl _, le_appendDigits n (d :: ds)⟩

theorem gather_all (fits : appendDigits n ds ≤ greatestWord) :
    gather n ds = (appendDigits n ds, []) := by
  induction ds generalizing n with
  | nil => rfl
  | cons d ds ih =>
    have grows := le_appendDigits (n * 10 + d) ds
    have more : n * 10 + d ≤ (n * 10 + d) * 10 ^ ds.length :=
      Nat.le_mul_of_pos_right _ (by positivity)
    have rest : appendDigits (n * 10 + d) ds ≤ greatestWord := fits
    have first : n * 10 + d ≤ greatestWord := by omega
    rw [gather, if_pos first, ih rest]
    rfl

theorem appendDigits_map (n : Nat) (cs : List Char) :
    appendDigits n (cs.map digit) = Nat.ofDigitChars 10 cs n := by
  induction cs generalizing n with
  | nil => simp [appendDigits]
  | cons c cs ih =>
    rw [Nat.ofDigitChars_cons, mul_comm 10 n]
    exact ih (n * 10 + digit c)

theorem appendDigits_toDigits (n : Nat) : appendDigits 0 ((Nat.toDigits 10 n).map digit) = n := by
  rw [appendDigits_map, Nat.ofDigitChars_toDigits (by decide) (by decide)]

/-- What may be scaled without becoming infinite, whatever is lost in between. -/
def safe : ℚ := (2 ^ 53 - 7 / 2) * 2 ^ (971 : ℤ)

theorem ten_pow_lt (small : n ≤ 308) : (10 : ℚ) ^ n < Binary64.infinite := by
  have top : 2 * 10 ^ 308 < (2 ^ 54 - 1) * 2 ^ 971 := by decide +kernel
  have cast : ((2 * 10 ^ 308 : ℕ) : ℚ) < ((2 ^ 54 - 1) * 2 ^ 971 : ℕ) := Nat.cast_lt.mpr top
  have grows : (10 : ℚ) ^ n ≤ 10 ^ 308 := pow_le_pow_right₀ (by norm_num) small
  rw [Nat.cast_mul, Nat.cast_mul, Nat.cast_pow, Nat.cast_pow] at cast
  rw [Binary64.infinite, zpow_ofNat]
  push_cast at cast
  generalize (10 : ℚ) ^ 308 = t, (2 : ℚ) ^ 971 = u at *
  linarith

theorem safe_lt : safe < 10 ^ 309 := by
  have top : (2 ^ 54 - 7) * 2 ^ 971 < 2 * 10 ^ 309 := by decide +kernel
  have cast : (((2 ^ 54 - 7) * 2 ^ 971 : ℕ) : ℚ) < (2 * 10 ^ 309 : ℕ) := Nat.cast_lt.mpr top
  rw [Nat.cast_mul, Nat.cast_mul, Nat.cast_pow, Nat.cast_pow] at cast
  rw [safe, zpow_ofNat]
  push_cast at cast
  generalize (10 : ℚ) ^ 309 = t, (2 : ℚ) ^ 971 = u at *
  linarith

theorem ten_pow_ratio (n : Nat) : ((10 ^ n : ℕ) : ℚ) / (1 : ℕ) = 10 ^ n := by simp

theorem half_le_powerOfTen (h : powerOfTen n = some y) : 1 / 2 ≤ y.magnitude := by
  have large : (1 : ℚ) ≤ 10 ^ n := one_le_pow₀ (by norm_num)
  rw [← ten_pow_ratio] at large
  have low := Binary64.half_le_ofRatio Nat.one_pos large h
  linarith

theorem powerOfTen_le (h : powerOfTen n = some y) :
    y.magnitude ≤ 10 ^ n * (1 + 1 / 2 ^ 53) := by
  have large : (1 : ℚ) ≤ 10 ^ n := one_le_pow₀ (by norm_num)
  rw [← ten_pow_ratio] at large ⊢
  exact Binary64.ofRatio_le Nat.one_pos large h

theorem powerOfTen_finite (small : n ≤ 308) : ∃ y, powerOfTen n = some y :=
  Binary64.ofRatio_finite Nat.one_pos (ten_pow_ratio n ▸ ten_pow_lt small)

theorem cast_word (word : n ≤ greatestWord) : (n : ℚ) ≤ 2 ^ 64 := by
  have word : n ≤ 18446744073709551615 := word
  have cast : (n : ℚ) ≤ 18446744073709551615 := by exact_mod_cast word
  linarith

theorem room : 2 ^ 80 < Binary64.infinite := by
  have power : (2 : ℚ) ^ 80 ≤ 2 ^ 971 := pow_le_pow_right₀ (by norm_num) (by norm_num)
  rw [Binary64.infinite, zpow_ofNat]
  generalize (2 : ℚ) ^ 971 = u at *
  linarith

theorem ofNat_bounds (word : n ≤ greatestWord) : ∃ x, Binary64.ofNat n = some x ∧ x.Valid ∧
    (n = 0 → x.isZero = true) ∧ x.magnitude ≤ n * (1 + 1 / 2 ^ 53) := by
  rcases Nat.eq_zero_or_pos n with rfl | present
  · refine ⟨.zero, rfl, Binary64.valid_zero, fun _ => rfl, ?_⟩
    norm_num [Binary64.magnitude, Binary64.zero]
  · have cast : (n : ℚ) / (1 : ℕ) = n := by simp
    have large : 1 ≤ (n : ℚ) / (1 : ℕ) := by
      rw [cast]
      exact_mod_cast present
    have small : (n : ℚ) < Binary64.infinite := by
      have most := cast_word word
      have room := room
      linarith
    obtain ⟨x, eq⟩ : ∃ x, Binary64.ofNat n = some x :=
      Binary64.ofRatio_finite Nat.one_pos (cast.symm ▸ small)
    have high := Binary64.ofRatio_le Nat.one_pos large eq
    rw [cast] at high
    exact ⟨x, eq, Binary64.valid_of_ofRatio Nat.one_pos eq, by omega, high⟩

theorem mul_eq (x y : Binary64) : ((x.ratio.1 * y.ratio.1 : ℕ) : ℚ) / (x.ratio.2 * y.ratio.2 : ℕ) =
    x.magnitude * y.magnitude := by
  rw [← x.ratio_eq, ← y.ratio_eq, Nat.cast_mul, Nat.cast_mul, mul_div_mul_comm]

theorem div_eq (x y : Binary64) : ((x.ratio.1 * y.ratio.2 : ℕ) : ℚ) / (x.ratio.2 * y.ratio.1 : ℕ) =
    x.magnitude / y.magnitude := by
  rw [← x.ratio_eq, ← y.ratio_eq, Nat.cast_mul, Nat.cast_mul, div_div_div_eq]

theorem ratio_num_pos (positive : 0 < x.magnitude) : 0 < x.ratio.1 := by
  rw [← x.ratio_eq] at positive
  by_contra none
  have zero : x.ratio.1 = 0 := by omega
  simp [zero] at positive

theorem mul_finite (small : x.magnitude * y.magnitude < Binary64.infinite) :
    ∃ z, x.mul y = some z ∧ z.Valid := by
  have pos : 0 < x.ratio.2 * y.ratio.2 := Nat.mul_pos x.ratio_pos y.ratio_pos
  rw [← mul_eq] at small
  obtain ⟨z, eq⟩ := Binary64.ofRatio_finite pos small
  exact ⟨z, eq, Binary64.valid_of_ofRatio pos eq⟩

theorem div_finite (large : 1 / 2 ≤ y.magnitude) (small : 2 * x.magnitude < Binary64.infinite) :
    ∃ z, x.div y = some z ∧ z.Valid ∧ z.magnitude ≤ 4 * x.magnitude + 1 := by
  have pos : 0 < x.ratio.2 * y.ratio.1 :=
    Nat.mul_pos x.ratio_pos (ratio_num_pos (by linarith))
  have twice : x.magnitude / y.magnitude ≤ 2 * x.magnitude := by
    rw [div_le_iff₀ (by linarith)]
    have := mul_le_mul_of_nonneg_left large x.magnitude_nonneg
    linarith
  have quotient := div_eq x y
  obtain ⟨z, eq⟩ := Binary64.ofRatio_finite pos (by rw [quotient]; linarith)
  have bound := Binary64.ofRatio_le_twice pos eq
  rw [quotient] at bound
  exact ⟨z, eq, Binary64.valid_of_ofRatio pos eq, by linarith⟩

theorem exponent_le_of_safe {E : Int} (present : 1 ≤ (n : ℚ)) (bound : (n : ℚ) * 10 ^ E ≤ safe) :
    E ≤ 308 := by
  by_contra large
  have power : (10 : ℚ) ^ (309 : ℤ) ≤ 10 ^ E := zpow_le_zpow_right₀ (by norm_num) (by omega)
  have positive : (0 : ℚ) < 10 ^ E := by positivity
  have below : (10 : ℚ) ^ E ≤ n * 10 ^ E := le_mul_of_one_le_left positive.le present
  rw [zpow_ofNat] at power
  exact absurd (power.trans (below.trans bound)) (not_le.mpr safe_lt)

theorem product_lt_infinite {t : ℚ} (most : x.magnitude ≤ n * (1 + 1 / 2 ^ 53))
    (powerMost : y.magnitude ≤ t * (1 + 1 / 2 ^ 53)) (bound : n * t ≤ safe) :
    x.magnitude * y.magnitude < Binary64.infinite := by
  calc x.magnitude * y.magnitude
      ≤ (n * (1 + 1 / 2 ^ 53)) * (t * (1 + 1 / 2 ^ 53)) :=
        mul_le_mul most powerMost y.magnitude_nonneg (by positivity)
    _ = n * t * (1 + 1 / 2 ^ 53) ^ 2 := by ring
    _ ≤ safe * (1 + 1 / 2 ^ 53) ^ 2 := by gcongr
    _ < Binary64.infinite := by
        have unit : (0 : ℚ) < 2 ^ (971 : ℤ) := by positivity
        unfold safe Binary64.infinite
        generalize (2 : ℚ) ^ (971 : ℤ) = u at *
        norm_num
        linarith

/-- Scaling keeps a safe number finite, though it rounds up to four times. -/
theorem scale_finite {E : Int} (word : n ≤ greatestWord) (bound : (n : ℚ) * 10 ^ E ≤ safe) :
    ∃ x y, Binary64.ofNat n = some x ∧ scale x E = some y ∧ y.Valid := by
  obtain ⟨x, eq, valid, zero, most⟩ := ofNat_bounds word
  refine ⟨x, ?_⟩
  simp only [eq, true_and]
  have most_word : x.magnitude ≤ 2 ^ 65 := by
    have fits := cast_word word
    linarith
  have room := room
  unfold scale
  split
  · exact ⟨x, rfl, valid⟩
  · rename_i nonzero
    have present : 1 ≤ (n : ℚ) := by
      have some : n ≠ 0 := fun none => nonzero (zero none)
      exact_mod_cast Nat.pos_of_ne_zero some
    have small := exponent_le_of_safe present bound
    split
    · omega
    · split
      · rename_i nonneg
        obtain ⟨p, powerEq⟩ := @powerOfTen_finite E.toNat (by omega)
        have powerMost := powerOfTen_le powerEq
        have power : (10 : ℚ) ^ E.toNat = 10 ^ E := by
          rw [← zpow_natCast, Int.toNat_of_nonneg nonneg]
        rw [power] at powerMost
        obtain ⟨y, yEq, valid⟩ := mul_finite (product_lt_infinite most powerMost bound)
        exact ⟨y, by simp [powerEq, yEq], valid⟩
      · split
        · obtain ⟨p, powerEq⟩ := @powerOfTen_finite (-E).toNat (by omega)
          have large := half_le_powerOfTen powerEq
          obtain ⟨y, yEq, valid, -⟩ := @div_finite x p large (by linarith)
          exact ⟨y, by simp [powerEq, yEq], valid⟩
        · split
          · obtain ⟨p, powerEq⟩ := @powerOfTen_finite 308 (le_refl _)
            obtain ⟨q, restEq⟩ := @powerOfTen_finite (-E - 308).toNat (by omega)
            have large := half_le_powerOfTen powerEq
            have rest := half_le_powerOfTen restEq
            obtain ⟨tiny, tinyEq, -, least⟩ := @div_finite x p large (by linarith)
            obtain ⟨y, yEq, valid, -⟩ := @div_finite tiny q rest (by linarith)
            exact ⟨y, by simp [powerEq, tinyEq, restEq, yEq], valid⟩
          · exact ⟨.zero, rfl, Binary64.valid_zero⟩

theorem powerOfTen_pos (h : powerOfTen n = some y) : 0 < y.ratio.1 := by
  have large := half_le_powerOfTen h
  apply ratio_num_pos
  linarith

theorem valid_of_div (h : x.div y = some z) (nonzero : 0 < y.ratio.1) : z.Valid :=
  Binary64.valid_of_ofRatio (Nat.mul_pos x.ratio_pos nonzero) h

theorem valid_of_scale {E : Int} (valid : x.Valid) (h : scale x E = some y) : y.Valid := by
  unfold scale at h
  split at h
  · exact Option.some.inj h ▸ valid
  · split at h
    · cases h
    · split at h
      · obtain ⟨p, -, product⟩ := Option.bind_eq_some_iff.mp h
        exact Binary64.valid_of_ofRatio (Nat.mul_pos x.ratio_pos p.ratio_pos) product
      · split at h
        · obtain ⟨p, power, quotient⟩ := Option.bind_eq_some_iff.mp h
          exact valid_of_div quotient (powerOfTen_pos power)
        · split at h
          · obtain ⟨p, power, h⟩ := Option.bind_eq_some_iff.mp h
            obtain ⟨tiny, -, h⟩ := Option.bind_eq_some_iff.mp h
            obtain ⟨q, rest, quotient⟩ := Option.bind_eq_some_iff.mp h
            exact valid_of_div quotient (powerOfTen_pos rest)
          · exact Option.some.inj h ▸ Binary64.valid_zero

theorem fit_of_real {negative : Bool} {E : Int} {number : Number}
    (h : real? negative n E = some number) : number.Fit := by
  obtain ⟨x, rounded, h⟩ := Option.bind_eq_some_iff.mp h
  obtain ⟨y, scaled, h⟩ := Option.bind_eq_some_iff.mp h
  obtain rfl := Option.some.inj h
  have valid := valid_of_scale (Binary64.valid_of_ofRatio Nat.one_pos rounded) scaled
  cases negative with
  | true => exact valid.negate
  | false => exact valid

theorem fit_of_value {numeral : Numeral} {number : Number} (h : numeral.value? = some number) :
    number.Fit := by
  unfold value? at h
  cases gathered : gather 0 numeral.whole with
  | mk n dropped =>
    have word := (gather_bounds gathered (Nat.zero_le _)).1
    have size : greatestWord + 1 = 2 ^ 64 := by decide
    have twice : UInt64.size = 2 ^ 64 := by decide
    simp only [gathered] at h
    split at h
    · split at h
      · obtain rfl := Option.some.inj h
        constructor <;> omega
      · split at h
        · obtain rfl := Option.some.inj h
          constructor <;> omega
        · exact fit_of_real h
    · exact fit_of_real h

theorem value_int {n : Int} (fit : (Number.int n).Fit) :
    (Number.int n).numeral.value? = some (.int n) := by
  obtain ⟨low, high⟩ := fit
  have size : greatestWord + 1 = 2 ^ 64 := by decide
  have twice : UInt64.size = 2 ^ 64 := by decide
  have digits := appendDigits_toDigits n.natAbs
  have gathered : gather 0 ((Nat.toDigits 10 n.natAbs).map digit) = (n.natAbs, []) := by
    rw [gather_all (by omega), digits]
  simp only [Number.numeral, Number.parts, ofParts, value?, gathered, exponentValue,
    Option.getD_none, List.map_nil, Option.map_none]
  by_cases negative : n < 0
  · have positive : 0 < n.natAbs ∧ 2 * n.natAbs ≤ UInt64.size := by omega
    have same : -(n.natAbs : Int) = n := by omega
    rw [if_neg (by simpa using negative), if_pos positive, same]
  · have same : (n.natAbs : Int) = n := by omega
    simp [negative, same]

/-- All digits of the parts, and the power of ten that they count. -/
def mantissa (p : Parts) : Nat := Nat.ofDigitChars 10 (p.whole ++ p.fraction.getD []) 0

def shift (p : Parts) : Int :=
  (exponentValue p.exponent).getD 0 - ((p.fraction.getD []).length : Int)

theorem exponentValue_toDigits (k : Int) :
    exponentValue (some (if k < 0 then '-' else '+', Nat.toDigits 10 k.natAbs)) = some k := by
  have digits : ofDigits ((Nat.toDigits 10 k.natAbs).map digit) = k.natAbs :=
    appendDigits_toDigits k.natAbs
  by_cases negative : k < 0
  · simp only [exponentValue, Option.map_some, digits, signed, negative, if_true, decide_true]
    congr 1
    omega
  · simp only [exponentValue, Option.map_some, digits, signed, negative, if_false]
    have plus : decide ('+' = '-') = false := by decide
    simp only [plus, Bool.false_eq_true, if_false]
    congr 1
    omega

theorem realParts_value (x : Binary64) :
    (mantissa (realParts x) : ℚ) * 10 ^ shift (realParts x) = x.shortest.value := by
  have ten : (10 : ℚ) ≠ 0 := by norm_num
  have digits := @Nat.ofDigitChars_toDigits 10 x.shortest.digits (by decide) (by decide)
  unfold realParts
  simp only
  split
  · rename_i zero
    simp [mantissa, Scientific.value, zero, Nat.ofDigitChars_cons]
  · split
    · rename_i whole
      have power : (10 : ℚ) ^ x.shortest.exponent.toNat = 10 ^ x.shortest.exponent := by
        rw [← zpow_natCast, Int.toNat_of_nonneg whole.1]
      have ones : Nat.ofDigitChars 10 ['0'] (10 ^ x.shortest.exponent.toNat * x.shortest.digits) =
          10 * (10 ^ x.shortest.exponent.toNat * x.shortest.digits) := by
        simp [Nat.ofDigitChars_cons]
      simp only [mantissa, shift, Option.getD_some, Nat.ofDigitChars_append, digits,
        Nat.ofDigitChars_replicate_zero, ones, exponentValue, Option.map_none, Option.getD_none,
        List.length_singleton, Scientific.value]
      push_cast
      rw [power]
      norm_num
      ring
    · rename_i broken
      split
      · rename_i inside
        have shift_eq : (0 : Int) - (((Nat.toDigits 10 x.shortest.digits).drop
            ((Nat.toDigits 10 x.shortest.digits).length +
              x.shortest.exponent).toNat).length : Int) = x.shortest.exponent := by
          rw [List.length_drop]
          omega
        simp only [mantissa, shift, Option.getD_some, List.take_append_drop, digits, exponentValue,
          Option.map_none, Option.getD_none, shift_eq, Scientific.value]
      · split
        · rename_i small
          have front : Nat.ofDigitChars 10 ['0'] 0 = 0 := by simp [Nat.ofDigitChars_cons]
          have shift_eq : (0 : Int) - ((List.replicate (-((Nat.toDigits 10
              x.shortest.digits).length + x.shortest.exponent)).toNat '0' ++
                Nat.toDigits 10 x.shortest.digits).length : Int) = x.shortest.exponent := by
            rw [List.length_append, List.length_replicate]
            omega
          simp only [mantissa, shift, Option.getD_some, Nat.ofDigitChars_append, front,
            Nat.ofDigitChars_replicate_zero, Nat.mul_zero, digits, exponentValue, Option.map_none,
            Option.getD_none, shift_eq, Scientific.value]
        · have length : 0 < (Nat.toDigits 10 x.shortest.digits).length :=
            Nat.length_toDigits_pos
          have shift_eq : ((Nat.toDigits 10 x.shortest.digits).length + x.shortest.exponent - 1) -
              (((Nat.toDigits 10 x.shortest.digits).drop 1).length : Int) =
              x.shortest.exponent := by
            rw [List.length_drop]
            omega
          simp only [mantissa, shift, fractionOf_getD, List.take_append_drop, digits,
            exponentValue_toDigits, Option.getD_some, shift_eq, Scientific.value]

theorem realParts_whole (x : Binary64) : (realParts x).whole.length ≤ 16 := by
  unfold realParts
  simp only
  split
  · simp
  · split
    · rename_i whole
      rw [List.length_append, List.length_replicate]
      omega
    · split
      · rename_i inside
        rw [List.length_take]
        omega
      · split
        · simp
        · rw [List.length_take]
          omega

/-- A binary number is never written like an integer. -/
theorem realParts_real (x : Binary64) :
    ((realParts x).fraction.getD []).map digit ≠ [] ∨
      exponentValue (realParts x).exponent ≠ none := by
  unfold realParts
  simp only
  split
  · simp
  · split
    · simp
    · split
      · rename_i inside
        left
        simp only [Option.getD_some, ne_eq, List.map_eq_nil_iff, List.drop_eq_nil_iff]
        omega
      · split
        · simp [Nat.toDigits_ne_nil]
        · simp [exponentValue]

/-- Only the three greatest numbers may be written too high for comfort. -/
theorem upper_le_safe {x : Binary64} (valid : x.Valid)
    (below : x.exponent = 971 → x.significand < 2 ^ 53 - 3) : x.upper ≤ safe := by
  have unit : (0 : ℚ) < 2 ^ (971 : ℤ) := by positivity
  unfold Binary64.upper safe
  rcases eq_or_ne x.exponent 971 with top | lower
  · have most : x.significand + 4 ≤ 2 ^ 53 := by
      have less := below top
      omega
    have cast : (x.significand : ℚ) + 4 ≤ 2 ^ 53 := by exact_mod_cast most
    rw [top]
    gcongr
    linarith
  · have most : (x.significand : ℚ) + 1 ≤ 2 ^ 53 := by exact_mod_cast valid.significand_lt
    have exponent : x.exponent ≤ 970 := by
      have := valid.exponent_le
      omega
    have power : (2 : ℚ) ^ x.exponent ≤ 2 ^ (970 : ℤ) := zpow_le_zpow_right₀ (by norm_num) exponent
    have half : (2 : ℚ) ^ (971 : ℤ) = 2 * 2 ^ (970 : ℤ) := by
      rw [← zpow_one_add₀ (by norm_num : (2 : ℚ) ≠ 0)]
      rfl
    calc ((x.significand : ℚ) + 1 / 2) * 2 ^ x.exponent ≤ 2 ^ 53 * 2 ^ (970 : ℤ) := by
          gcongr
          linarith
      _ ≤ (2 ^ 53 - 7 / 2) * 2 ^ (971 : ℤ) := by
          rw [half] at unit ⊢
          generalize (2 : ℚ) ^ (970 : ℤ) = u at *
          linarith only [unit]

theorem digit_lt {c : Char} (is : c.isDigit = true) : digit c < 10 := by
  simp only [Char.isDigit, Bool.and_eq_true, decide_eq_true_eq] at is
  have high : c.toNat ≤ 57 := is.2
  unfold digit
  omega

/-- Sixteen digits fit a word, so that digits are only lost behind them. -/
theorem short_le_greatestWord {cs : List Char} (digits : ∀ c ∈ cs, c.isDigit = true)
    (short : cs.length ≤ 16) : appendDigits 0 (cs.map digit) ≤ greatestWord := by
  have small : ∀ d ∈ cs.map digit, d < 10 := by
    intro d mem
    obtain ⟨c, hc, rfl⟩ := List.mem_map.mp mem
    exact digit_lt (digits c hc)
  have below := @appendDigits_lt 0 _ small
  have power : 10 ^ (cs.map digit).length ≤ 10 ^ 16 :=
    Nat.pow_le_pow_right (by decide) (by simpa using short)
  have room : 10 ^ 16 ≤ greatestWord := by decide
  omega

theorem value_safe {x : Binary64} (small : x.upper ≤ safe) :
    ∃ y, (Number.real x).numeral.value? = some (.real y) := by
  have value := realParts_value x
  have real := realParts_real x
  have short := realParts_whole x
  have ok := realParts_ok x
  have numeral : (Number.real x).numeral = ofParts x.negative (realParts x) := rfl
  rw [numeral]
  generalize realParts x = p at value real short ok ⊢
  have word : appendDigits 0 (p.whole.map digit) ≤ greatestWord :=
    short_le_greatestWord ok.whole.all short
  have whole := gather_all word
  cases gathered : gather (appendDigits 0 (p.whole.map digit)) ((p.fraction.getD []).map digit) with
  | mk m ignored =>
    obtain ⟨most, shorter, bound⟩ := gather_bounds gathered word
    have all : appendDigits (appendDigits 0 (p.whole.map digit))
        ((p.fraction.getD []).map digit) = mantissa p := by
      rw [appendDigits_map, appendDigits_map, mantissa, Nat.ofDigitChars_append]
    rw [all] at bound
    have exponent : (0 : Int) - ((((p.fraction.getD []).map digit).length : Int) -
        (ignored.length : Int)) + (exponentValue p.exponent).getD 0 =
        shift p + (ignored.length : Int) := by
      unfold shift
      rw [List.length_map]
      omega
    have safeEnough : (m : ℚ) * 10 ^ (shift p + (ignored.length : Int)) ≤ safe := by
      have cast : (m * 10 ^ ignored.length : ℚ) ≤ mantissa p := by exact_mod_cast bound
      rw [zpow_add₀ (by norm_num : (10 : ℚ) ≠ 0), zpow_natCast]
      calc (m : ℚ) * (10 ^ shift p * 10 ^ ignored.length)
          = m * 10 ^ ignored.length * 10 ^ shift p := by ring
        _ ≤ mantissa p * 10 ^ shift p := by gcongr
        _ = x.shortest.value := value
        _ ≤ x.upper := x.shortest_le
        _ ≤ safe := small
    obtain ⟨y, z, rounded, scaled, -⟩ := scale_finite most safeEnough
    refine ⟨if x.negative then z.negate else z, ?_⟩
    unfold value?
    simp only [ofParts, whole]
    split
    · rename_i bare plain _
      rcases real with fraction | exponent
      · exact absurd bare fraction
      · exact absurd plain exponent
    · simp only [gathered, List.length_nil, Nat.cast_zero, exponent, real?, rounded, scaled,
        Option.bind_eq_bind, Option.bind_some, Option.pure_def]

theorem value_greatest (negative : Bool) {k : Nat} (few : k < 3) :
    ∃ y, (Number.real ⟨negative, 2 ^ 53 - 1 - k, 971⟩).numeral.value? = some (.real y) := by
  have all : ∀ negative, ∀ k < 3,
      ((Number.real ⟨negative, 2 ^ 53 - 1 - k, 971⟩).numeral.value?.any fun
        | .real _ => true
        | .int _ => false) = true := by
    decide +kernel
  have real := all negative k few
  cases value : (Number.real ⟨negative, 2 ^ 53 - 1 - k, 971⟩).numeral.value? with
  | none =>
    rw [value] at real
    cases real
  | some number =>
    rw [value] at real
    cases number with
    | int n => cases real
    | real y => exact ⟨y, rfl⟩

theorem value_real {x : Binary64} (valid : x.Valid) :
    ∃ y, (Number.real x).numeral.value? = some (.real y) := by
  by_cases below : x.exponent = 971 → x.significand < 2 ^ 53 - 3
  · exact value_safe (upper_le_safe valid below)
  · obtain ⟨top, most⟩ := Classical.not_imp.mp below
    have less := valid.significand_lt
    obtain ⟨negative, significand, exponent⟩ := x
    simp only at top most less
    obtain rfl : exponent = 971 := top
    obtain ⟨k, few, rfl⟩ : ∃ k, k < 3 ∧ significand = 2 ^ 53 - 1 - k :=
      ⟨2 ^ 53 - 1 - significand, by omega, by omega⟩
    exact value_greatest negative few

end Numeral

def Number.rough : Number → Number
  | .int n => .int n
  | .real _ => .real .zero

/-- What is read is a number again, and the same one if it is an integer. -/
theorem token_of_fit {n : Number} (fit : n.Fit) :
    ∃ m, n.token = .number (.ok m) true ∧ m.rough = n.rough := by
  rw [n.token_eq]
  cases n with
  | int n => exact ⟨.int n, by rw [Numeral.value_int fit]; rfl, rfl⟩
  | real x =>
    obtain ⟨y, value⟩ := Numeral.value_real fit
    exact ⟨.real y, by rw [value]; rfl, rfl⟩

end Hotplug.Json
