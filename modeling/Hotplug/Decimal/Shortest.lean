import Hotplug.Decimal.Binary64
/-!
The shortest decimal that reads back as a given binary number, and its layout. Of the
grids of 1, 2, … 17 digits the first one with a point in the number's rounding interval is
taken, and of two such points the nearer, a tie to the even one.
-/
namespace Hotplug.Decimal

/-- The number `digits · 10 ^ exponent`. -/
structure Scientific where
  digits : Nat
  exponent : Int
  deriving DecidableEq, Repr

def Scientific.ratio (d : Scientific) : Nat × Nat :=
  match d.exponent with
  | .ofNat n => (d.digits * Nat.pow 10 n, 1)
  | .negSucc n => (d.digits, Nat.pow 10 (n + 1))

namespace Binary64

/-- The ends of the interval of numbers that round to `x`, times four, as multiples of
`2 ^ (exponent - 2)`. -/
def ends (x : Binary64) : Nat × Nat :=
  let m := 4 * x.significand
  let below := if x.significand = hiddenBit ∧ x.exponent > leastExponent then 1 else 2
  (m - below, m + 2)

def near (x : Binary64) (num den : Nat) : Bool :=
  let (low, high) := x.ends
  let (n, d) := scaled num den (2 - x.exponent)
  if x.significand % 2 = 0 then low * d ≤ n && n ≤ high * d
  else low * d < n && n < high * d

def digitCount (n : Nat) : Nat := (Nat.toDigits 10 n).length

def decimalOrder (num den : Nat) : Int :=
  let e : Int := (digitCount num : Int) - (digitCount den : Int)
  let (n, d) :=
    if 0 ≤ e then (num, den * Nat.pow 10 e.toNat)
    else (num * Nat.pow 10 (-e).toNat, den)
  if n < d then e - 1 else e

def neighbours (num den : Nat) (exponent : Int) : Nat × Nat × Nat × Nat :=
  let (n, d) :=
    if 0 ≤ exponent then (num, den * Nat.pow 10 exponent.toNat)
    else (num * Nat.pow 10 (-exponent).toNat, den)
  (n / d, n / d + 1, n % d, d)

/-- The point of the grid of `count` digits to take, if one rounds to `x`. -/
def onGrid? (x : Binary64) (order : Int) (count : Nat) : Option Scientific :=
  let exponent := order - count + 1
  let (num, den) := x.ratio
  let (below, above, rest, unit) := neighbours num den exponent
  let fits (digits : Nat) : Bool :=
    let (n, d) := (Scientific.mk digits exponent).ratio
    x.near n d
  match fits below, fits above with
  | true, true =>
    if 2 * rest < unit || (2 * rest == unit && below % 2 == 0) then some ⟨below, exponent⟩
    else some ⟨above, exponent⟩
  | true, false => some ⟨below, exponent⟩
  | false, true => some ⟨above, exponent⟩
  | false, false => none

def stripZeros : Nat → Scientific → Scientific
  | 0, d => d
  | fuel + 1, d =>
    if d.digits % 10 = 0 then stripZeros fuel ⟨d.digits / 10, d.exponent + 1⟩ else d

def shortest (x : Binary64) : Scientific :=
  if x.isZero then ⟨0, 0⟩
  else
    let (num, den) := x.ratio
    let order := decimalOrder num den
    match (List.range' 1 17).findSome? (x.onGrid? order) with
    | some d => stripZeros 18 d
    | none => ⟨0, 0⟩

/-- Positional below the sixteenth power of ten and from its fifth negative power on, with at
least one place; else one digit before the point and a signed exponent. -/
def text (x : Binary64) : String :=
  let d := x.shortest
  let digits := Nat.toDigits 10 d.digits
  let point : Int := digits.length + d.exponent
  let zeros (n : Int) : List Char := List.replicate n.toNat '0'
  let magnitude : List Char :=
    if d.digits = 0 then "0.0".toList
    else if 0 ≤ d.exponent ∧ point ≤ 16 then digits ++ zeros d.exponent ++ ".0".toList
    else if 0 < point ∧ point ≤ 16 then
      digits.take point.toNat ++ '.' :: digits.drop point.toNat
    else if -5 < point ∧ point ≤ 0 then "0.".toList ++ zeros (-point) ++ digits
    else
      let fraction := match digits.drop 1 with
        | [] => []
        | more => '.' :: more
      let sign := if point - 1 < 0 then '-' else '+'
      digits.take 1 ++ fraction ++ ['e', sign] ++ Nat.toDigits 10 (point - 1).natAbs
  String.ofList (if x.negative then '-' :: magnitude else magnitude)

end Binary64

end Hotplug.Decimal
