/-!
Base64 with the standard alphabet and padding. Reading accepts exactly what writing
produces, except that the unused low bits before the padding are not looked at.
-/
namespace Hotplug.Text.Base64

def symbol (n : Nat) : Char :=
  if n < 26 then Char.ofNat (65 + n)
  else if n < 52 then Char.ofNat (71 + n)
  else if n < 62 then Char.ofNat (n - 4)
  else if n = 62 then '+'
  else '/'

def value? (c : Char) : Option Nat :=
  let n := c.toNat
  if 65 ≤ n ∧ n ≤ 90 then some (n - 65)
  else if 97 ≤ n ∧ n ≤ 122 then some (n - 71)
  else if 48 ≤ n ∧ n ≤ 57 then some (n + 4)
  else if c = '+' then some 62
  else if c = '/' then some 63
  else none

def group (a b c : UInt8) : List Char :=
  let n := a.toNat * 65536 + b.toNat * 256 + c.toNat
  [symbol (n / 262144), symbol (n / 4096 % 64), symbol (n / 64 % 64), symbol (n % 64)]

def encodeOnto : List UInt8 → List Char → List Char
  | a :: b :: c :: rest, done => encodeOnto rest ((group a b c).reverse ++ done)
  | [a, b], done => '=' :: (((group a b 0).take 3).reverse ++ done)
  | [a], done => '=' :: '=' :: (((group a 0 0).take 2).reverse ++ done)
  | [], done => done

def encode (bytes : List UInt8) : String := String.ofList (encodeOnto bytes []).reverse

def decodeGroups : List Char → Option (List UInt8)
  | [] => some []
  | [a, b, '=', '='] => do
    let n := (← value? a) * 64 + (← value? b)
    return [UInt8.ofNat (n / 16)]
  | [a, b, c, '='] => do
    let n := (← value? a) * 4096 + (← value? b) * 64 + (← value? c)
    return [UInt8.ofNat (n / 1024), UInt8.ofNat (n / 4 % 256)]
  | a :: b :: c :: d :: rest => do
    let n := (← value? a) * 262144 + (← value? b) * 4096 + (← value? c) * 64 + (← value? d)
    let more ← decodeGroups rest
    return UInt8.ofNat (n / 65536) :: UInt8.ofNat (n / 256 % 256) :: UInt8.ofNat (n % 256) :: more
  | _ => none

def decode (text : String) : Option (List UInt8) := decodeGroups text.toList

end Hotplug.Text.Base64
