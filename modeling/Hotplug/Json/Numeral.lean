import Hotplug.Json.Value
import Hotplug.Text.Utf8
/-!
Numerals and the numbers they stand for. An integer that fits 64 bits is exact. Any other
numeral keeps as many leading digits as fit 64 bits unsigned, rounds them, and scales the
result by the nearest binary numbers to powers of ten; every step rounds once. A numeral
that would be infinite stands for nothing.
-/
namespace Hotplug.Json

open Hotplug.Decimal Hotplug.Text

/-- Why a document is refused: it breaks the grammar, it does not fit what is read from
it, or it ends too early. -/
inductive Fault where
  | malformed
  | mismatched
  | truncated
  deriving DecidableEq, Repr

def Fault.label : Fault → String
  | .malformed => "<syntax>"
  | .mismatched => "<data>"
  | .truncated => "<eof>"

structure Numeral where
  negative : Bool
  whole : List Nat
  fraction : List Nat
  exponent : Option Int
  deriving DecidableEq, Repr

namespace Numeral

def greatestWord : Nat := UInt64.size - 1

def gather : Nat → List Nat → Nat × List Nat
  | n, [] => (n, [])
  | n, d :: digits =>
    if n * 10 + d ≤ greatestWord then gather (n * 10 + d) digits else (n, d :: digits)

def powerOfTen (n : Nat) : Option Binary64 := Binary64.ofNat (Nat.pow 10 n)

/-- `x · 10 ^ exponent` for a rounded 64 bit integer `x`, unless that is infinite. -/
def scale (x : Binary64) (exponent : Int) : Option Binary64 :=
  if x.isZero then some x
  else if 308 < exponent then none
  else if 0 ≤ exponent then (powerOfTen exponent.toNat).bind x.mul
  else if -308 ≤ exponent then (powerOfTen (-exponent).toNat).bind x.div
  else if -616 ≤ exponent then do
    let tiny ← x.div (← powerOfTen 308)
    tiny.div (← powerOfTen (-exponent - 308).toNat)
  else some Binary64.zero

def real? (negative : Bool) (digits : Nat) (exponent : Int) : Option Number := do
  let x ← scale (← Binary64.ofNat digits) exponent
  return .real (if negative then x.negate else x)

def value? (numeral : Numeral) : Option Number :=
  let (n, dropped) := gather 0 numeral.whole
  match numeral.fraction, numeral.exponent, dropped with
  | [], none, [] =>
    if !numeral.negative then some (.int n)
    else if 0 < n ∧ 2 * n ≤ UInt64.size then some (.int (-n))
    else real? true n 0
  | fraction, exponent, dropped =>
    let (m, ignored) := gather n fraction
    let places : Int := (fraction.length : Int) - (ignored.length : Int)
    real? numeral.negative m ((dropped.length : Int) - places + exponent.getD 0)

def spanDigits : List Symbol → List Nat → List Nat × List Symbol
  | .char c :: rest, taken =>
    match digitValue? c with
    | some d => spanDigits rest (d :: taken)
    | none => (taken.reverse, .char c :: rest)
  | rest, taken => (taken.reverse, rest)

def someDigits (s : List Symbol) : Except Fault (List Nat × List Symbol) :=
  match s with
  | [] => .error .truncated
  | _ =>
    match spanDigits s [] with
    | ([], _) => .error .malformed
    | found => .ok found

def scanWhole (s : List Symbol) : Except Fault (List Nat × List Symbol) := do
  let (digits, rest) ← someDigits s
  match digits with
  | 0 :: _ :: _ => .error .malformed
  | _ => return (digits, rest)

def scanFraction : List Symbol → Except Fault (List Nat × List Symbol)
  | .char '.' :: rest => someDigits rest
  | rest => return ([], rest)

def signed (negative : Bool) (n : Nat) : Int := if negative then -(n : Int) else n

def ofDigits (digits : List Nat) : Nat := digits.foldl (fun n d => n * 10 + d) 0

def scanExponent : List Symbol → Except Fault (Option Int × List Symbol)
  | .char 'e' :: rest | .char 'E' :: rest => do
    let (negative, rest) := match rest with
      | .char '+' :: more => (false, more)
      | .char '-' :: more => (true, more)
      | _ => (false, rest)
    let (digits, rest) ← someDigits rest
    return (some (signed negative (ofDigits digits)), rest)
  | rest => return (none, rest)

def scan (negative : Bool) (s : List Symbol) : Except Fault (Numeral × List Symbol) := do
  let (whole, rest) ← scanWhole s
  let (fraction, rest) ← scanFraction rest
  let (exponent, rest) ← scanExponent rest
  return (⟨negative, whole, fraction, exponent⟩, rest)

end Numeral

end Hotplug.Json
