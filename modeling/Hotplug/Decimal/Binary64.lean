/-!
Binary floating point numbers of 53 bits, as exact integers. Rounding is to the nearest,
ties to the even significand. Infinities and NaN are no values here: what would be
infinite is refused.
-/
namespace Hotplug.Decimal

/-- The number `± significand · 2 ^ exponent`. -/
structure Binary64 where
  negative : Bool
  significand : Nat
  exponent : Int
  deriving DecidableEq, Repr

namespace Binary64

def hiddenBit : Nat := 0x10000000000000

def leastExponent : Int := -1074

def greatestExponent : Int := 971

def zero : Binary64 := ⟨false, 0, leastExponent⟩

def isZero (x : Binary64) : Bool := x.significand == 0

def negate (x : Binary64) : Binary64 := { x with negative := !x.negative }

/-- The quotient rounded to the nearest integer, a half to the even one. -/
def roundDiv (num den : Nat) : Nat :=
  let q := num / den
  let r := num % den
  if 2 * r < den then q
  else if den < 2 * r then q + 1
  else q + q % 2

def scaled (num den : Nat) (shift : Int) : Nat × Nat :=
  match shift with
  | .ofNat n => (num * Nat.pow 2 n, den)
  | .negSucc n => (num, den * Nat.pow 2 (n + 1))

/-- The greatest `e` with `2 ^ e ≤ num / den`, for positive arguments. -/
def binaryOrder (num den : Nat) : Int :=
  let e : Int := (num.log2 : Int) - (den.log2 : Int)
  let (n, d) := scaled num den (-e)
  if n < d then e - 1 else e

/-- The number nearest to `num / den`, unless that is infinite. -/
def ofRatio (num den : Nat) : Option Binary64 :=
  if num = 0 then some zero
  else
    let exponent := max (binaryOrder num den - 52) leastExponent
    let (n, d) := scaled num den (-exponent)
    let m := roundDiv n d
    let (m, exponent) := if m = 2 * hiddenBit then (hiddenBit, exponent + 1) else (m, exponent)
    if exponent > greatestExponent then none else some ⟨false, m, exponent⟩

def ratio (x : Binary64) : Nat × Nat := scaled x.significand 1 x.exponent

def ofNat (n : Nat) : Option Binary64 := ofRatio n 1

def mul (x y : Binary64) : Option Binary64 :=
  ofRatio (x.ratio.1 * y.ratio.1) (x.ratio.2 * y.ratio.2)

def div (x y : Binary64) : Option Binary64 :=
  ofRatio (x.ratio.1 * y.ratio.2) (x.ratio.2 * y.ratio.1)

end Binary64

end Hotplug.Decimal
