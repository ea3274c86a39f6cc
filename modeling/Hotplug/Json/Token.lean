import Hotplug.Json.Numeral
/-!
The tokens of a document. Reading never fails as a whole: a literal, numeral or string
that is broken becomes a token that carries its fault, and nothing is read after one whose
end cannot be told. Strings and numerals carry two outcomes, since a value that nobody asks
for is held to looser rules: it may have lone surrogates, bytes that are no UTF-8, and
numbers of any size.
-/
namespace Hotplug.Json

open Hotplug.Text

inductive Bracket where
  | square
  | curly
  deriving DecidableEq, Repr

inductive Literal where
  | null
  | bool (b : Bool)
  deriving DecidableEq, Repr

inductive Token where
  | opening (bracket : Bracket)
  | closing (bracket : Bracket)
  | comma
  | colon
  | literal (value : Except Fault Literal)
  /-- `wellFormed` says whether the numeral's shape is right, whatever its size. -/
  | number (value : Except Fault Number) (wellFormed : Bool)
  /-- `loose` is the fault of the string if nobody asks for its text. -/
  | string (text : Except Fault String) (loose : Option Fault)
  | other

def isJsonBlank (c : Char) : Bool := c == ' ' || c == '\n' || c == '\t' || c == '\r'

def skipBlanks : List Symbol → List Symbol
  | .char c :: rest => if isJsonBlank c then skipBlanks rest else .char c :: rest
  | rest => rest

def keyword : List Char → List Symbol → Except Fault (List Symbol)
  | [], rest => .ok rest
  | _ :: _, [] => .error .truncated
  | k :: ks, s :: rest => if s = .char k then keyword ks rest else .error .malformed

/-- What has been read of a string. -/
structure Quoted where
  taken : List Char
  lead : Option Nat
  fault : Option Fault
  stray : Bool

namespace Quoted

def empty : Quoted := ⟨[], none, none, false⟩

/-- A leading surrogate not followed by its second half is a fault. -/
def settle (q : Quoted) : Quoted :=
  match q.lead with
  | none => q
  | some _ => { q with lead := none, fault := q.fault <|> some .malformed }

def push (q : Quoted) (c : Char) : Quoted :=
  let q := q.settle
  { q with taken := c :: q.taken }

def unit (q : Quoted) (n : Nat) : Quoted :=
  if 0xDC00 ≤ n ∧ n ≤ 0xDFFF then
    match q.lead with
    | some l =>
      let code := (l - 0xD800) * 0x400 + (n - 0xDC00) + 0x10000
      { q with lead := none, taken := Char.ofNat code :: q.taken }
    | none => { q with fault := q.fault <|> some .malformed }
  else
    let q := q.settle
    if 0xD800 ≤ n ∧ n ≤ 0xDBFF then { q with lead := some n }
    else { q with taken := Char.ofNat n :: q.taken }

def close (q : Quoted) : Except Fault String :=
  let q := q.settle
  match q.fault with
  | some f => .error f
  | none => if q.stray then .error .malformed else .ok (String.ofList q.taken.reverse)

def abort (q : Quoted) (f : Fault) : Token := .string (.error (q.fault.getD f)) (some f)

def plainEscape? (c : Char) : Option Char :=
  match c with
  | '"' => some '"'
  | '\\' => some '\\'
  | '/' => some '/'
  | 'b' => some '\x08'
  | 'f' => some '\x0c'
  | 'n' => some '\n'
  | 'r' => some '\r'
  | 't' => some '\t'
  | _ => none

def hex4? (a b c d : Symbol) : Option Nat := do
  let a ← hexValue? (← a.char?)
  let b ← hexValue? (← b.char?)
  let c ← hexValue? (← c.char?)
  let d ← hexValue? (← d.char?)
  return a * 4096 + b * 256 + c * 16 + d

/-- The fault of an escape that four hexadecimal digits do not follow: fewer than four
bytes are a document that ends too early. -/
def hexFault (rest : List Symbol) : Fault :=
  if (rest.take 4).foldl (fun size symbol => size + symbol.size) 0 < 4 then .truncated
  else .malformed

end Quoted

def scanString : List Symbol → Quoted → Token × List Symbol
  | [], q => (q.abort .truncated, [])
  | .stray _ :: rest, q => scanString rest { q.settle with stray := true }
  | .char '\\' :: rest, q =>
    match rest with
    | [] => (q.abort .truncated, [])
    | .char 'u' :: rest =>
      match rest with
      | a :: b :: c :: d :: more =>
        match Quoted.hex4? a b c d with
        | some n => scanString more (q.unit n)
        | none => (q.abort (Quoted.hexFault rest), [])
      | _ => (q.abort (Quoted.hexFault rest), [])
    | .char c :: more =>
      match Quoted.plainEscape? c with
      | some c => scanString more (q.push c)
      | none => (q.abort .malformed, [])
    | .stray _ :: _ => (q.abort .malformed, [])
  | .char c :: rest, q =>
    if c = '"' then (.string q.close none, rest)
    else if c.toNat < 0x20 then (q.abort .malformed, [])
    else scanString rest (q.push c)

def scanLiteral (rest : List Char) (value : Literal) (s : List Symbol) : Token × List Symbol :=
  match keyword rest s with
  | .ok s => (.literal (.ok value), s)
  | .error f => (.literal (.error f), [])

def scanNumber (negative : Bool) (s : List Symbol) : Token × List Symbol :=
  match Numeral.scan negative s with
  | .error f => (.number (.error f) false, [])
  | .ok (numeral, rest) =>
    match numeral.value? with
    | some n => (.number (.ok n) true, rest)
    | none => (.number (.error .malformed) true, rest)

def scanToken (c : Char) (rest : List Symbol) : Token × List Symbol :=
  match c with
  | '[' => (.opening .square, rest)
  | ']' => (.closing .square, rest)
  | '\x7b' => (.opening .curly, rest)
  | '\x7d' => (.closing .curly, rest)
  | ',' => (.comma, rest)
  | ':' => (.colon, rest)
  | '"' => scanString rest .empty
  | 'n' => scanLiteral ['u', 'l', 'l'] .null rest
  | 't' => scanLiteral ['r', 'u', 'e'] (.bool true) rest
  | 'f' => scanLiteral ['a', 'l', 's', 'e'] (.bool false) rest
  | '-' => scanNumber true rest
  | c => if (digitValue? c).isSome then scanNumber false (.char c :: rest) else (.other, rest)

/-- Reads tokens onto those already read, which are in reverse. Every token takes a symbol,
so that as much fuel as symbols is enough. -/
def tokensOnto : Nat → List Symbol → List Token → List Token
  | 0, _, done => done.reverse
  | fuel + 1, s, done =>
    match skipBlanks s with
    | [] => done.reverse
    | .stray _ :: rest => tokensOnto fuel rest (.other :: done)
    | .char c :: rest =>
      let (token, rest) := scanToken c rest
      tokensOnto fuel rest (token :: done)

def tokens (s : List Symbol) : List Token := tokensOnto s.length s []

end Hotplug.Json
