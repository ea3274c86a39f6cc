/-!
Lists of characters: blanks, trimming and splitting. A blank is a character with the
White_Space property; a zero width space and a byte order mark are none.
-/
namespace Hotplug.Text

def isBlank (c : Char) : Bool :=
  let n := c.toNat
  (9 ≤ n && n ≤ 13) || n == 0x20 || n == 0x85 || n == 0xA0 || n == 0x1680 ||
    (0x2000 ≤ n && n ≤ 0x200A) || n == 0x2028 || n == 0x2029 || n == 0x202F ||
    n == 0x205F || n == 0x3000

def trimStart (s : List Char) : List Char := s.dropWhile isBlank

def trim (s : List Char) : List Char := (trimStart (trimStart s).reverse).reverse

def splitAt (separator : Char) (s : List Char) : List (List Char) :=
  s.foldr (fun c pieces =>
    if c = separator then [] :: pieces
    else match pieces with
      | [] => [[c]]
      | piece :: more => (c :: piece) :: more) [[]]

theorem splitAt_ne_nil (separator : Char) (s : List Char) : splitAt separator s ≠ [] := by
  cases s with
  | nil => simp [splitAt]
  | cons c s =>
    simp only [splitAt, List.foldr_cons]
    split
    · simp
    · split <;> simp

def splitOnce (separator : Char) : List Char → Option (List Char × List Char)
  | [] => none
  | c :: s =>
    if c = separator then some ([], s)
    else (splitOnce separator s).map fun (before, after) => (c :: before, after)

def hexValue? (c : Char) : Option Nat :=
  let n := c.toNat
  if 48 ≤ n ∧ n ≤ 57 then some (n - 48)
  else if 65 ≤ n ∧ n ≤ 70 then some (n - 55)
  else if 97 ≤ n ∧ n ≤ 102 then some (n - 87)
  else none

def digitValue? (c : Char) : Option Nat :=
  let n := c.toNat
  if 48 ≤ n ∧ n ≤ 57 then some (n - 48) else none

/-- The lower case hexadecimal digit; zero from sixteen on. -/
def hexDigit (n : Nat) : Char :=
  if n < 10 then Char.ofNat (48 + n) else if n < 16 then Char.ofNat (87 + n) else '0'

def byteCount : List Char → Nat
  | [] => 0
  | c :: s => c.utf8Size + byteCount s

def joinWith (separator : String) (pieces : List String) : String :=
  String.intercalate separator pieces

end Hotplug.Text
