import Hotplug.Address.Basic
/-!
Reading of IP addresses and networks. Plain addresses are strict: no octet has a leading
zero, and a double colon stands for at least one group. In networks octets may have
leading zeros, and a double colon may stand for none.
-/
namespace Hotplug.Address

open Hotplug.Text

structure Style where
  leadingZeros : Bool
  emptyGap : Bool

def Style.plain : Style := ⟨false, false⟩

def Style.network : Style := ⟨true, true⟩

def digitBelow? (radix : Nat) (c : Char) : Option Nat :=
  (hexValue? c).filter (· < radix)

def spanDigits (radix : Nat) (s : List Char) : List Nat × List Char :=
  (s.takeWhile fun c => (digitBelow? radix c).isSome) |>.filterMap (digitBelow? radix)
    |> fun digits => (digits, s.dropWhile fun c => (digitBelow? radix c).isSome)

def valueOf (radix : Nat) (digits : List Nat) : Nat := digits.foldl (fun n d => n * radix + d) 0

def readNumber (radix most bound : Nat) (leadingZeros : Bool) (s : List Char) :
    Option (Nat × List Char) :=
  let (digits, rest) := spanDigits radix s
  let n := valueOf radix digits
  if digits.isEmpty || most < digits.length || bound ≤ n ||
      (!leadingZeros && 1 < digits.length && digits.head? == some 0) then none
  else some (n, rest)

def readGiven (c : Char) : List Char → Option (List Char)
  | d :: s => if c = d then some s else none
  | [] => none

def readOctet (style : Style) (s : List Char) : Option (UInt8 × List Char) :=
  (readNumber 10 3 256 style.leadingZeros s).map fun (n, s) => (UInt8.ofNat n, s)

def readV4 (style : Style) (s : List Char) : Option (Vector UInt8 4 × List Char) := do
  let (a, s) ← readOctet style s
  let (b, s) ← readOctet style (← readGiven '.' s)
  let (c, s) ← readOctet style (← readGiven '.' s)
  let (d, s) ← readOctet style (← readGiven '.' s)
  return (#v[a, b, c, d], s)

def pair (high low : UInt8) : UInt16 := UInt16.ofNat (high.toNat * 256 + low.toNat)

/-- Reads up to `left` groups, colons between them, onto those read in reverse. The last two
may be an IPv4 address; whether they were is the second result. -/
def readGroups (style : Style) :
    Nat → Bool → List Char → List UInt16 → List UInt16 × Bool × List Char
  | 0, _, s, done => (done.reverse, false, s)
  | left + 1, first, s, done =>
    match if first then some s else readGiven ':' s with
    | none => (done.reverse, false, s)
    | some t =>
      match if 0 < left then readV4 style t else none with
      | some (octets, t) =>
        let groups := [pair octets[0] octets[1], pair octets[2] octets[3]]
        (done.reverse ++ groups, true, t)
      | none =>
        match readNumber 16 4 0x10000 true t with
        | some (n, t) => readGroups style left false t (UInt16.ofNat n :: done)
        | none => (done.reverse, false, s)

def v6Of? (groups : List UInt16) : Option (Vector UInt16 8) :=
  if h : groups.length = 8 then some ⟨groups.toArray, by simp [h]⟩ else none

def readV6 (style : Style) (s : List Char) : Option (Vector UInt16 8 × List Char) := do
  let (head, endsInV4, s) := readGroups style 8 true s []
  if head.length = 8 then return (← v6Of? head, s)
  if endsInV4 then none
  let s ← readGiven ':' (← readGiven ':' s)
  let room := if style.emptyGap then 8 - head.length else 7 - head.length
  let (tail, _, s) := readGroups style room true s []
  let gap := List.replicate (8 - head.length - tail.length) 0
  return (← v6Of? (head ++ gap ++ tail), s)

def Ip.ofChars? (s : List Char) : Option Ip :=
  match readV4 .plain s with
  | some (octets, rest) => if rest.isEmpty then some (.v4 octets) else none
  | none =>
    match readV6 .plain s with
    | some (groups, rest) => if rest.isEmpty then some (.v6 groups) else none
    | none => none

def readV4Network (s : List Char) : Option (Network × List Char) := do
  let (octets, s) ← readV4 .network s
  let (length, s) ← readNumber 10 2 33 true (← readGiven '/' s)
  if h : length ≤ 32 then return (⟨.v4 octets, length, h⟩, s) else none

def readV6Network (s : List Char) : Option (Network × List Char) := do
  let (groups, s) ← readV6 .network s
  let (length, s) ← readNumber 10 3 129 true (← readGiven '/' s)
  if h : length ≤ 128 then return (⟨.v6 groups, length, h⟩, s) else none

def Network.ofChars? (s : List Char) : Option Network :=
  match readV4Network s <|> readV6Network s with
  | some (network, rest) => if rest.isEmpty then some network else none
  | none => none

def Ip.ofText? (text : String) : Option Ip := Ip.ofChars? text.toList

def Network.ofText? (text : String) : Option Network := Network.ofChars? text.toList

end Hotplug.Address
