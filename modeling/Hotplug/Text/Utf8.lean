/-!
Bytes read as text. A byte sequence that is no UTF-8 does not stop the reading: each
longest run that could have begun a character, or else a single byte, becomes one stray
symbol that remembers its size.
-/
namespace Hotplug.Text

inductive Symbol where
  | char (c : Char)
  | stray (size : Nat)
  deriving DecidableEq, Repr

namespace Symbol

def size : Symbol → Nat
  | .char c => c.utf8Size
  | .stray n => n

def char? : Symbol → Option Char
  | .char c => some c
  | .stray _ => none

def ofText (text : String) : List Symbol := text.toList.map Symbol.char

/-- The text with U+FFFD in the place of every stray symbol. -/
def lossy (symbols : List Symbol) : String :=
  String.ofList (symbols.map (·.char?.getD (Char.ofNat 0xFFFD)))

def text? (symbols : List Symbol) : Option String :=
  (symbols.mapM char?).map String.ofList

/-- How many bytes follow the first byte of a character, and the range of the next one. -/
def lead? (b : Nat) : Option (Nat × Nat × Nat) :=
  if 0xC2 ≤ b ∧ b ≤ 0xDF then some (1, 0x80, 0xBF)
  else if b = 0xE0 then some (2, 0xA0, 0xBF)
  else if b = 0xED then some (2, 0x80, 0x9F)
  else if 0xE1 ≤ b ∧ b ≤ 0xEF then some (2, 0x80, 0xBF)
  else if b = 0xF0 then some (3, 0x90, 0xBF)
  else if 0xF1 ≤ b ∧ b ≤ 0xF3 then some (3, 0x80, 0xBF)
  else if b = 0xF4 then some (3, 0x80, 0x8F)
  else none

def leadBits (b more : Nat) : Nat := b % Nat.pow 2 (6 - more)

/-- A character under way: bytes taken, bytes still owed, the range of the next one and
the code point so far. -/
structure Pending where
  taken : Nat
  owed : Nat
  low : Nat
  high : Nat
  code : Nat

/-- Reads one byte between two characters. -/
def start (b : Nat) (done : List Symbol) : Option Pending × List Symbol :=
  if b < 0x80 then (none, .char (Char.ofNat b) :: done)
  else match lead? b with
    | some (owed, low, high) => (some ⟨1, owed, low, high, leadBits b owed⟩, done)
    | none => (none, .stray 1 :: done)

def step : Option Pending × List Symbol → Nat → Option Pending × List Symbol
  | (none, done), b => start b done
  | (some p, done), b =>
    if p.low ≤ b ∧ b ≤ p.high then
      let code := p.code * 64 + b % 64
      if p.owed ≤ 1 then (none, .char (Char.ofNat code) :: done)
      else (some ⟨p.taken + 1, p.owed - 1, 0x80, 0xBF, code⟩, done)
    else start b (.stray p.taken :: done)

def ofBytes (bytes : List UInt8) : List Symbol :=
  let (pending, done) := bytes.foldl (fun s b => step s b.toNat) (none, [])
  match pending with
  | some p => (.stray p.taken :: done).reverse
  | none => done.reverse

end Symbol

def bytesOf (text : String) : List UInt8 := text.toUTF8.toList

end Hotplug.Text
