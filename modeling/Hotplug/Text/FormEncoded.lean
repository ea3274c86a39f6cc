import Hotplug.Text.Basic
import Hotplug.Text.Utf8
/-!
Texts in queries: letters, digits and four marks stand for themselves, a blank is a plus, and
every other byte is a percent sign and two upper case hexadecimal digits.
-/
namespace Hotplug.Text.FormEncoded

def isPlain (c : Char) : Bool :=
  c.isAlphanum || c == '*' || c == '-' || c == '.' || c == '_'

def upperDigit (n : Nat) : Char := (hexDigit n).toUpper

def encodeByte (b : UInt8) : List Char :=
  let c := Char.ofNat b.toNat
  if isPlain c then [c]
  else if b = 32 then ['+']
  else ['%', upperDigit (b.toNat / 16), upperDigit (b.toNat % 16)]

def encode (text : String) : String := String.ofList ((bytesOf text).flatMap encodeByte)

end Hotplug.Text.FormEncoded
