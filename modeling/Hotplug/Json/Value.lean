import Hotplug.Decimal.Shortest
import Hotplug.Text.Basic
/-!
JSON values and their two layouts: compact, and with one member or item a line. The
members of an object keep the order in which they came; numbers are integers of 64 bits
or binary floating point.
-/
namespace Hotplug.Json

open Hotplug.Decimal

inductive Number where
  | int (n : Int)
  | real (x : Binary64)
  deriving DecidableEq, Repr

inductive Value where
  | null
  | bool (b : Bool)
  | number (n : Number)
  | string (s : String)
  | array (items : List Value)
  | object (members : List (String × Value))
  deriving Repr, Inhabited

abbrev Members := List (String × Value)

mutual

def Value.same : Value → Value → Bool
  | .null, .null => true
  | .bool a, .bool b => a == b
  | .number a, .number b => a == b
  | .string a, .string b => a == b
  | .array a, .array b => sameItems a b
  | .object a, .object b => sameMembers a b
  | _, _ => false

def sameItems : List Value → List Value → Bool
  | [], [] => true
  | a :: as, b :: bs => a.same b && sameItems as bs
  | _, _ => false

def sameMembers : List (String × Value) → List (String × Value) → Bool
  | [], [] => true
  | (k, a) :: as, (l, b) :: bs => k == l && a.same b && sameMembers as bs
  | _, _ => false

end

mutual

theorem Value.same_iff (a b : Value) : a.same b = true ↔ a = b := by
  cases a <;> cases b <;> simp [Value.same, sameItems_iff, sameMembers_iff]

theorem sameItems_iff (a b : List Value) : sameItems a b = true ↔ a = b := by
  cases a <;> cases b <;> simp [sameItems, Value.same_iff, sameItems_iff]

theorem sameMembers_iff (a b : List (String × Value)) : sameMembers a b = true ↔ a = b := by
  match a, b with
  | [], [] => simp [sameMembers]
  | [], _ :: _ => simp [sameMembers]
  | _ :: _, [] => simp [sameMembers]
  | (k, x) :: as, (l, y) :: bs =>
    simp [sameMembers, Value.same_iff, sameMembers_iff]

end

instance : DecidableEq Value := fun a b =>
  decidable_of_iff (a.same b = true) (Value.same_iff a b)

namespace Members

def get? (members : Members) (key : String) : Option Value := members.lookup key

/-- A repeated key keeps its first place and takes the last value. -/
def insert (members : Members) (key : String) (value : Value) : Members :=
  if members.any (·.1 == key) then
    members.map fun member => if member.1 == key then (key, value) else member
  else members ++ [(key, value)]

end Members

def escape (c : Char) : List Char :=
  if c = '"' then ['\\', '"']
  else if c = '\\' then ['\\', '\\']
  else if c.toNat < 0x20 then
    match c.toNat with
    | 8 => ['\\', 'b']
    | 9 => ['\\', 't']
    | 10 => ['\\', 'n']
    | 12 => ['\\', 'f']
    | 13 => ['\\', 'r']
    | n => ['\\', 'u', '0', '0', Text.hexDigit (n / 16), Text.hexDigit (n % 16)]
  else [c]

def quote (s : String) : List Char := '"' :: (s.toList.flatMap escape ++ ['"'])

def Number.render : Number → List Char
  | .int n => (toString n).toList
  | .real x => x.text.toList

mutual

def Value.render : Value → List Char
  | .null => "null".toList
  | .bool true => "true".toList
  | .bool false => "false".toList
  | .number n => n.render
  | .string s => quote s
  | .array [] => ['[', ']']
  | .array (item :: items) => '[' :: (item.render ++ (renderItems items ++ [']']))
  | .object [] => ['\x7b', '\x7d']
  | .object ((key, value) :: members) =>
    '\x7b' :: (quote key ++ ':' :: (value.render ++ (renderMembers members ++ ['\x7d'])))

def renderItems : List Value → List Char
  | [] => []
  | item :: items => ',' :: (item.render ++ renderItems items)

def renderMembers : List (String × Value) → List Char
  | [] => []
  | (key, value) :: members =>
    ',' :: (quote key ++ ':' :: (value.render ++ renderMembers members))

end

def Value.compact (value : Value) : String := String.ofList value.render

def newLine (level : Nat) : List Char := '\n' :: List.replicate (4 * level) ' '

mutual

def Value.layOut (level : Nat) : Value → List Char
  | .null => "null".toList
  | .bool true => "true".toList
  | .bool false => "false".toList
  | .number n => n.render
  | .string s => quote s
  | .array [] => ['[', ']']
  | .array (item :: items) =>
    '[' :: (newLine (level + 1) ++ (item.layOut (level + 1) ++
      (layOutItems level items ++ (newLine level ++ [']']))))
  | .object [] => ['\x7b', '\x7d']
  | .object ((key, value) :: members) =>
    '\x7b' :: (newLine (level + 1) ++ (quote key ++ ':' :: ' ' :: (value.layOut (level + 1) ++
      (layOutMembers level members ++ (newLine level ++ ['\x7d'])))))

def layOutItems (level : Nat) : List Value → List Char
  | [] => []
  | item :: items =>
    ',' :: (newLine (level + 1) ++ (item.layOut (level + 1) ++ layOutItems level items))

def layOutMembers (level : Nat) : List (String × Value) → List Char
  | [] => []
  | (key, value) :: members =>
    ',' :: (newLine (level + 1) ++ (quote key ++ ':' :: ' ' :: (value.layOut (level + 1) ++
      layOutMembers level members)))

end

def Value.indented (value : Value) : String := String.ofList (value.layOut 0)

def objectOf (members : List (Option (String × Value))) : Value :=
  .object (members.filterMap id)

def member (key : String) (value : Value) : Option (String × Value) := some (key, value)

def textMember (key text : String) : Option (String × Value) :=
  if text.isEmpty then none else some (key, .string text)

def listMember (key : String) (items : List Value) : Option (String × Value) :=
  if items.isEmpty then none else some (key, .array items)

def optionalMember (key : String) (value : Option Value) : Option (String × Value) :=
  value.map (key, ·)

def strings (items : List String) : List Value := items.map Value.string

end Hotplug.Json
