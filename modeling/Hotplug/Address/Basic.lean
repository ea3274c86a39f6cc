import Hotplug.Text.Basic
/-!
IP addresses and networks, and how they are written. An IPv6 address shows its longest run
of zero groups, the first of equals and never a single one, as a double colon; one that
maps an IPv4 address ends in that address. A network keeps its host bits.
-/
namespace Hotplug.Address

inductive Ip where
  | v4 (octets : Vector UInt8 4)
  | v6 (groups : Vector UInt16 8)
  deriving DecidableEq, Repr

def Ip.width : Ip → Nat
  | .v4 _ => 32
  | .v6 _ => 128

structure Network where
  address : Ip
  length : Nat
  length_le : length ≤ address.width
  deriving DecidableEq, Repr

def writeDecimal (n : Nat) : List Char := Nat.toDigits 10 n

def writeGroup (g : UInt16) : List Char := Nat.toDigits 16 g.toNat

def joinPieces (separator : Char) : List (List Char) → List Char
  | [] => []
  | [piece] => piece
  | piece :: pieces => piece ++ separator :: joinPieces separator pieces

def writeOctets (octets : List UInt8) : List Char :=
  joinPieces '.' (octets.map fun o => writeDecimal o.toNat)

def writeGroups (groups : List UInt16) : List Char := joinPieces ':' (groups.map writeGroup)

def zeroRun (groups : List UInt16) : Nat := (groups.takeWhile (· == 0)).length

/-- The place and length of the longest run of zero groups, the first of equals. -/
def longestGap : List UInt16 → Nat × Nat
  | [] => (0, 0)
  | g :: groups =>
    let (start, length) := longestGap groups
    let run := zeroRun (g :: groups)
    if length ≤ run ∧ 0 < run then (0, run) else (start + 1, length)

def mapped? (groups : List UInt16) : Option (List UInt8) :=
  match groups with
  | [0, 0, 0, 0, 0, 0xFFFF, a, b] =>
    some [(a >>> 8).toUInt8, a.toUInt8, (b >>> 8).toUInt8, b.toUInt8]
  | _ => none

def writeV6 (groups : List UInt16) : List Char :=
  match mapped? groups with
  | some octets => "::ffff:".toList ++ writeOctets octets
  | none =>
    let (start, length) := longestGap groups
    if 1 < length then
      writeGroups (groups.take start) ++ "::".toList ++ writeGroups (groups.drop (start + length))
    else writeGroups groups

def Ip.write : Ip → List Char
  | .v4 octets => writeOctets octets.toList
  | .v6 groups => writeV6 groups.toList

def Ip.text (ip : Ip) : String := String.ofList ip.write

def Network.text (network : Network) : String :=
  String.ofList (network.address.write ++ '/' :: writeDecimal network.length)

end Hotplug.Address
