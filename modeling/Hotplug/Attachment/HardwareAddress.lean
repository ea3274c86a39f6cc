import Hotplug.Text.Basic
/-!
Hardware addresses of 6, 8 or 20 octets: groups of two hexadecimal digits between colons
or between hyphens, or groups of four between dots.
-/
namespace Hotplug.HardwareAddress

open Hotplug.Text

def isHexDigit (c : Char) : Bool := (hexValue? c).isSome

/-- The separator that a text uses, and how many digits a group then has. -/
def grouping? (s : List Char) : Option (Char × Nat) :=
  if s.contains ':' then some (':', 2)
  else if s.contains '-' then some ('-', 2)
  else if s.contains '.' then some ('.', 4)
  else none

/-- A group is measured in bytes; one of hexadecimal digits has as many bytes as digits. -/
def isGroup (digits : Nat) (group : List Char) : Bool :=
  byteCount group == digits && group.all isHexDigit

def isOctetCount (n : Nat) : Bool := n == 6 || n == 8 || n == 20

def accepts (s : List Char) : Bool :=
  match grouping? s with
  | none => false
  | some (separator, digits) =>
    let groups := splitAt separator s
    isOctetCount (groups.length * digits / 2) && groups.all (isGroup digits)

end Hotplug.HardwareAddress
