import Hotplug.Text.Utf8
/-!
Protocol buffers: fields as keys and values, read in any order. Unknown fields are passed
over, groups included, up to a depth. A length that runs past the end is refused.
-/
namespace Hotplug.Wire

open Hotplug.Text

inductive Kind where
  | varint
  | fixed64
  | bytes
  | groupStart
  | groupEnd
  | fixed32
  deriving DecidableEq, Repr

def Kind.code : Kind → Nat
  | .varint => 0
  | .fixed64 => 1
  | .bytes => 2
  | .groupStart => 3
  | .groupEnd => 4
  | .fixed32 => 5

def Kind.ofCode? : Nat → Option Kind
  | 0 => some .varint
  | 1 => some .fixed64
  | 2 => some .bytes
  | 3 => some .groupStart
  | 4 => some .groupEnd
  | 5 => some .fixed32
  | _ => none

def varintOf : Nat → Nat → List UInt8
  | 0, n => [UInt8.ofNat (n % 128)]
  | more + 1, n =>
    if n < 128 then [UInt8.ofNat n]
    else UInt8.ofNat (n % 128 + 128) :: varintOf more (n / 128)

/-- Seven bits a byte, the lowest first, in ten bytes at most. -/
def writeVarint (n : Nat) : List UInt8 := varintOf 9 n

def writeKey (number : Nat) (kind : Kind) : List UInt8 := writeVarint (number * 8 + kind.code)

def writeBytes (number : Nat) (bytes : List UInt8) : List UInt8 :=
  writeKey number .bytes ++ writeVarint bytes.length ++ bytes

def writeText (number : Nat) (text : String) : List UInt8 :=
  if text.isEmpty then [] else writeBytes number (bytesOf text)

def writeFlag (number : Nat) (flag : Bool) : List UInt8 :=
  if flag then writeKey number .varint ++ [1] else []

/-- One field an entry of a map; the empty key and the empty value are left out. -/
def writeMap (number : Nat) (entries : List (String × String)) : List UInt8 :=
  entries.flatMap fun (key, value) => writeBytes number (writeText 1 key ++ writeText 2 value)

/-- Reads at most `left` bytes of a number, the tenth of which has a single bit. -/
def varintFrom : Nat → List UInt8 → Option (Nat × List UInt8)
  | 0, _ => none
  | _, [] => none
  | left + 1, b :: rest =>
    if b < 128 then if left = 0 ∧ 1 < b then none else some (b.toNat, rest)
    else (varintFrom left rest).map fun (n, rest) => (b.toNat - 128 + 128 * n, rest)

def readVarint (bytes : List UInt8) : Option (Nat × List UInt8) := varintFrom 10 bytes

def readKey (bytes : List UInt8) : Option (Nat × Kind × List UInt8) := do
  let (key, rest) ← readVarint bytes
  let kind ← Kind.ofCode? (key % 8)
  if key < UInt32.size ∧ 8 ≤ key then return (key / 8, kind, rest) else none

def takeBytes (count : Nat) (bytes : List UInt8) : Option (List UInt8 × List UInt8) :=
  if count ≤ bytes.length then some (bytes.take count, bytes.drop count) else none

def readBytes (bytes : List UInt8) : Option (List UInt8 × List UInt8) := do
  let (count, rest) ← readVarint bytes
  takeBytes count rest

def readText (bytes : List UInt8) : Option (String × List UInt8) := do
  let (content, rest) ← readBytes bytes
  return (← Symbol.text? (Symbol.ofBytes content), rest)

def skipPlain (kind : Kind) (bytes : List UInt8) : Option (List UInt8) :=
  match kind with
  | .varint => (readVarint bytes).map (·.2)
  | .fixed64 => (takeBytes 8 bytes).map (·.2)
  | .bytes => (readBytes bytes).map (·.2)
  | .fixed32 => (takeBytes 4 bytes).map (·.2)
  | .groupStart | .groupEnd => none

/-- Passes over fields up to the end of the outermost of the open groups, innermost first.
Every field takes a byte. -/
def skipGroups (depth : Nat) : Nat → List Nat → List UInt8 → Option (List UInt8)
  | _, [], bytes => some bytes
  | 0, _, _ => none
  | fuel + 1, inner :: outer, bytes => do
    let (number, kind, rest) ← readKey bytes
    match kind with
    | .groupEnd => if number = inner then skipGroups depth fuel outer rest else none
    | .groupStart =>
      if outer.length + 1 < depth then skipGroups depth fuel (number :: inner :: outer) rest
      else none
    | kind =>
      if outer.length + 1 < depth then
        skipGroups depth fuel (inner :: outer) (← skipPlain kind rest)
      else none

def skip (depth number : Nat) (kind : Kind) (bytes : List UInt8) : Option (List UInt8) :=
  match kind with
  | .groupStart => skipGroups depth (bytes.length + 1) [number] bytes
  | kind => skipPlain kind bytes

/-- How a message takes a field: by its depth, number, kind and the bytes from its value on. -/
abbrev Merge (ρ : Type) := Nat → Nat → Kind → List UInt8 → ρ → Option (ρ × List UInt8)

def mergeFields {ρ : Type} (merge : Merge ρ) (depth : Nat) :
    Nat → List UInt8 → ρ → Option ρ
  | _, [], message => some message
  | 0, _, _ => none
  | fuel + 1, bytes, message => do
    let (number, kind, rest) ← readKey bytes
    let (message, rest) ← merge depth number kind rest message
    mergeFields merge depth fuel rest message

def mergeAll {ρ : Type} (merge : Merge ρ) (depth : Nat) (bytes : List UInt8) (message : ρ) :
    Option ρ :=
  mergeFields merge depth (bytes.length + 1) bytes message

def ignore {ρ : Type} : Merge ρ := fun depth number kind bytes message =>
  (skip depth number kind bytes).map (message, ·)

def textField {ρ : Type} (set : String → ρ → ρ) : Merge ρ := fun _ _ kind bytes message =>
  if kind = .bytes then (readText bytes).map fun (text, rest) => (set text message, rest)
  else none

def flagField {ρ : Type} (set : Bool → ρ → ρ) : Merge ρ := fun _ _ kind bytes message =>
  if kind = .varint then (readVarint bytes).map fun (n, rest) => (set (n != 0) message, rest)
  else none

/-- A nested message, read on top of the one that is there. -/
def messageField {ρ μ : Type} (merge : Merge μ) (get : ρ → μ) (set : μ → ρ → ρ) : Merge ρ :=
  fun depth _ kind bytes message =>
    if kind = .bytes then do
      let (content, rest) ← readBytes bytes
      let inner ← mergeAll merge (depth - 1) content (get message)
      return (set inner message, rest)
    else none

abbrev TextMap := List (String × String)

def TextMap.insert (entries : TextMap) (key value : String) : TextMap :=
  if entries.any (·.1 == key) then
    entries.map fun entry => if entry.1 == key then (key, value) else entry
  else entries ++ [(key, value)]

def mergeEntry : Merge (String × String) := fun depth number kind bytes entry =>
  match number with
  | 1 => textField (fun text (entry : String × String) => (text, entry.2))
    depth number kind bytes entry
  | 2 => textField (fun text (entry : String × String) => (entry.1, text))
    depth number kind bytes entry
  | _ => ignore depth number kind bytes entry

/-- A map takes one entry a field, whatever kind the field claims to be. -/
def mapField {ρ : Type} (get : ρ → TextMap) (set : TextMap → ρ → ρ) : Merge ρ :=
  fun depth _ _ bytes message => do
    let (content, rest) ← readBytes bytes
    let (key, value) ← mergeAll mergeEntry (depth - 1) content ("", "")
    return (set (TextMap.insert (get message) key value) message, rest)

def greatestDepth : Nat := 100

def decode {ρ : Type} (merge : Merge ρ) (blank : ρ) (bytes : List UInt8) : Option ρ :=
  mergeAll merge greatestDepth bytes blank

end Hotplug.Wire
