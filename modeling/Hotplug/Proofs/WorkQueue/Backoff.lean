import Hotplug.WorkQueue.Backoff
import Mathlib.Algebra.Group.Nat.Defs
/-!
Delays in exact arithmetic. The factor is capped at 2^32 - 1, which is no power of two, and a
product can be too long to be told; the greatest delay hides both exactly if the greatest factor
takes the base delay that far. When a key that was put off comes back is not covered.
-/
namespace Hotplug.Backoff

variable {b : Backoff} {m n : Nat}

theorem factor_eq (n : Nat) : factor n = min (2 ^ n) greatestFactor := by
  have greatest : greatestFactor = 2 ^ 32 - 1 := rfl
  change (if n < 32 then 2 ^ n else greatestFactor) = min (2 ^ n) greatestFactor
  split
  · rename_i below
    have least : 2 ^ n ≤ 2 ^ 31 := Nat.pow_le_pow_right (by decide) (Nat.le_of_lt_succ below)
    exact (Nat.min_eq_left (by omega)).symm
  · rename_i beyond
    have most : 2 ^ 32 ≤ 2 ^ n := Nat.pow_le_pow_right (by decide) (Nat.le_of_not_lt beyond)
    exact (Nat.min_eq_right (by omega)).symm

theorem factor_mono (le : m ≤ n) : factor m ≤ factor n := by
  have powers : 2 ^ m ≤ 2 ^ n := Nat.pow_le_pow_right (by decide) le
  rw [factor_eq, factor_eq]
  omega

theorem delay_le (b : Backoff) (n : Nat) : b.delay n ≤ b.greatest := by
  unfold delay
  dsimp only
  split
  · exact Nat.min_le_right _ _
  · exact Nat.le_refl _

/-- A product that cannot be told is past the greatest delay, which can. -/
theorem delay_eq (told : b.greatest < b.limit) (n : Nat) :
    b.delay n = min (b.base * factor n) b.greatest := by
  unfold delay
  dsimp only
  split
  · rfl
  · rename_i untold
    exact (Nat.min_eq_right (by omega)).symm

theorem delay_mono (told : b.greatest < b.limit) (le : m ≤ n) : b.delay m ≤ b.delay n := by
  have products : b.base * factor m ≤ b.base * factor n :=
    Nat.mul_le_mul_left b.base (factor_mono le)
  rw [delay_eq told, delay_eq told]
  omega

theorem delay_of_reach (told : b.greatest < b.limit)
    (reach : b.greatest ≤ b.base * greatestFactor) (n : Nat) :
    b.delay n = min (b.base * 2 ^ n) b.greatest := by
  rw [delay_eq told, factor_eq]
  by_cases capped : greatestFactor ≤ 2 ^ n
  · have product : b.base * greatestFactor ≤ b.base * 2 ^ n := Nat.mul_le_mul_left b.base capped
    rw [Nat.min_eq_right capped, Nat.min_eq_right reach,
      Nat.min_eq_right (Nat.le_trans reach product)]
  · rw [Nat.min_eq_left (Nat.le_of_not_le capped)]

/-- A base delay that falls short of the greatest delay under the greatest factor shows the cap at
the thirty-second doubling, unless it is no delay at all. -/
theorem delay_exact_iff (told : b.greatest < b.limit) :
    (∀ n, b.delay n = min (b.base * 2 ^ n) b.greatest) ↔
      b.base = 0 ∨ b.greatest ≤ b.base * greatestFactor := by
  constructor
  · intro all
    have greatest : greatestFactor = 2 ^ 32 - 1 := rfl
    have last := all 32
    have capped : factor 32 = greatestFactor := rfl
    rw [delay_eq told, capped, greatest] at last
    rw [greatest]
    omega
  · rintro (none | reach)
    · intro n
      rw [delay_eq told, none, Nat.zero_mul, Nat.zero_mul]
    · exact delay_of_reach told reach

/-- Each delay is the base delay times a power of two, up to the greatest delay, and neither the
largest factor nor the longest product shows. -/
theorem delay_doubles (b : Backoff) (told : b.greatest < b.limit)
    (reach : b.greatest ≤ b.base * (2 ^ 32 - 1)) :
    (∀ n, b.delay n = min (b.base * 2 ^ n) b.greatest) ∧
      (∀ m n, m ≤ n → b.delay m ≤ b.delay n) ∧ ∀ n, b.delay n ≤ b.greatest :=
  ⟨(delay_exact_iff told).mpr (.inr reach), fun _ _ => delay_mono told, delay_le b⟩

theorem default_delay_doubles :
    (1000000 < ({} : Backoff).limit ∧ 1000000 ≤ 5 * (2 ^ 32 - 1)) ∧
      (∀ n, ({} : Backoff).delay n = min (5 * 2 ^ n) 1000000) ∧
      (∀ m n, m ≤ n → ({} : Backoff).delay m ≤ ({} : Backoff).delay n) ∧
      ∀ n, ({} : Backoff).delay n ≤ 1000000 :=
  ⟨⟨by decide, by decide⟩, delay_doubles {} (by decide) (by decide)⟩

/-- One doubling of the longest delay cannot be told. -/
example : ({ base := UInt64.size * 1000 - 1 } : Backoff).delay 1 = 1000000 := by decide

end Hotplug.Backoff
