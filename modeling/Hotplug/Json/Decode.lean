import Hotplug.Json.Token
/-!
Typed reading. A decoder takes what it needs from the front of the tokens, so that of two
faults the earlier one wins: a value of the wrong type before a document that ends too
early behind it. At most 127 brackets may be open at once, except inside members nobody
asks for, which are passed over whole.
-/
namespace Hotplug.Json

open Hotplug.Text

variable {α β ρ : Type}

/-- What a decoder may use up: levels of nesting, and a bound on the items of a bracket. -/
structure Budget where
  depth : Nat
  items : Nat

abbrev Decoder (α : Type) := Budget → List Token → Except Fault (α × List Token)

namespace Decoder

def map (f : α → β) (d : Decoder α) : Decoder β := fun budget ts => do
  let (a, ts) ← d budget ts
  return (f a, ts)

def filterMap (f : α → Option β) (d : Decoder α) : Decoder β := fun budget ts => do
  let (a, ts) ← d budget ts
  match f a with
  | some b => return (b, ts)
  | none => throw .mismatched

end Decoder

/-- The fault of a value that is not of the type asked for. One that is broken itself is
refused for that. -/
def refusal : List Token → Fault
  | [] => .truncated
  | .opening _ :: _ => .mismatched
  | .literal (.error f) :: _ => f
  | .literal (.ok _) :: _ => .mismatched
  | .number (.error f) _ :: _ => f
  | .number (.ok _) _ :: _ => .mismatched
  | .string (.error f) _ :: _ => f
  | .string (.ok _) _ :: _ => .mismatched
  | _ => .malformed

/-- What an open bracket asks for where a token is missing or out of place. -/
def expected : List Token → Fault
  | [] => .truncated
  | _ => .malformed

def string : Decoder String := fun _ ts =>
  match ts with
  | .string (.ok s) _ :: rest => .ok (s, rest)
  | _ => .error (refusal ts)

def bool : Decoder Bool := fun _ ts =>
  match ts with
  | .literal (.ok (.bool b)) :: rest => .ok (b, rest)
  | _ => .error (refusal ts)

def natBelow (bound : Nat) : Decoder Nat := fun _ ts =>
  match ts with
  | .number (.ok (.int n)) _ :: rest =>
    if 0 ≤ n ∧ n < bound then .ok (n.toNat, rest) else .error .mismatched
  | _ => .error (refusal ts)

def option (d : Decoder α) : Decoder (Option α) := fun budget ts =>
  match ts with
  | .literal (.ok .null) :: rest => .ok (none, rest)
  | _ => d.map some budget ts

def enter (budget : Budget) : Except Fault Budget :=
  if budget.depth = 0 then .error .malformed
  else .ok { budget with depth := budget.depth - 1 }

/-- Steps to the next item of a square bracket: none is left at its end, which stays. -/
def nextItem (first : Bool) (ts : List Token) : Except Fault (Option (List Token)) :=
  match ts with
  | [] => .error .truncated
  | .closing .square :: _ => .ok none
  | .comma :: rest =>
    if first then .ok (some ts)
    else match rest with
      | [] => .error .truncated
      | .closing .square :: _ => .error .malformed
      | _ => .ok (some rest)
  | _ => if first then .ok (some ts) else .error .malformed

def leave (bracket : Bracket) (ts : List Token) : Except Fault (List Token) :=
  match ts with
  | .closing b :: rest => if b = bracket then .ok rest else .error .malformed
  | _ => .error (expected ts)

/-- The items up to the end of a square bracket, after those already read in reverse. -/
def itemsOnto (d : Decoder α) (budget : Budget) :
    Nat → Bool → List Token → List α → Except Fault (List α × List Token)
  | 0, _, _, _ => .error .malformed
  | fuel + 1, first, ts, done => do
    match ← nextItem first ts with
    | none => return (done.reverse, ts)
    | some ts =>
      let (a, ts) ← d budget ts
      itemsOnto d budget fuel false ts (a :: done)

def list (d : Decoder α) : Decoder (List α) := fun budget ts =>
  match ts with
  | .opening .square :: ts => do
    let inner ← enter budget
    let (items, ts) ← itemsOnto d inner (budget.items + 1) true ts []
    let ts ← leave .square ts
    return (items, ts)
  | _ => .error (refusal ts)

/-- Steps to the next key of a curly bracket: none is left at its end, which stays. -/
def nextKey (first : Bool) (ts : List Token) : Except Fault (Option (String × List Token)) :=
  let key : List Token → Except Fault (Option (String × List Token))
    | [] => .error .truncated
    | .string (.ok s) _ :: rest => .ok (some (s, rest))
    | .string (.error f) _ :: _ => .error f
    | _ => .error .malformed
  match ts with
  | [] => .error .truncated
  | .closing .curly :: _ => .ok none
  | .comma :: rest => if first then .error .malformed else key rest
  | _ => if first then key ts else .error .malformed

def passColon (ts : List Token) : Except Fault (List Token) :=
  match ts with
  | .colon :: rest => .ok rest
  | _ => .error (expected ts)

/-- The members up to the end of a curly bracket, after those already read, the last one
first. A repeated key keeps its first place and takes the last value. -/
def membersOnto (d : Decoder Value) (budget : Budget) :
    Nat → Bool → List Token → Members → Except Fault (Members × List Token)
  | 0, _, _, _ => .error .malformed
  | fuel + 1, first, ts, done => do
    match ← nextKey first ts with
    | none => return (done.reverse, ts)
    | some (key, ts) =>
      let ts ← passColon ts
      let (value, ts) ← d budget ts
      let done :=
        if done.any (·.1 == key) then
          done.map fun member => if member.1 == key then (key, value) else member
        else (key, value) :: done
      membersOnto d budget fuel false ts done

def membersOf (d : Decoder Value) : Decoder Members := fun budget ts =>
  match ts with
  | .opening .curly :: ts => do
    let inner ← enter budget
    let (members, ts) ← membersOnto d inner (budget.items + 1) true ts []
    let ts ← leave .curly ts
    return (members, ts)
  | _ => .error (refusal ts)

def scalar (ts : List Token) : Except Fault (Value × List Token) :=
  match ts with
  | .literal (.ok .null) :: rest => .ok (.null, rest)
  | .literal (.ok (.bool b)) :: rest => .ok (.bool b, rest)
  | .number (.ok n) _ :: rest => .ok (.number n, rest)
  | .string (.ok s) _ :: rest => .ok (.string s, rest)
  | _ => .error (refusal ts)

def valueOf : (depth : Nat) → Decoder Value
  | 0 => fun _ ts =>
    match ts with
    | .opening _ :: _ => .error .malformed
    | _ => scalar ts
  | depth + 1 => fun budget ts =>
    match ts with
    | .opening .square :: _ => (list (valueOf depth)).map Value.array budget ts
    | .opening .curly :: _ => (membersOf (valueOf depth)).map Value.object budget ts
    | _ => scalar ts

def value : Decoder Value := fun budget ts => valueOf budget.depth budget ts

def members : Decoder Members := membersOf value

/-- What may follow in a value that is passed over: a value, the first item or the end of a
bracket, or a comma or an end. -/
inductive Awaiting where
  | value
  | fresh
  | next

/-- Passes over one value by the loose rules, with the brackets open in it, innermost first. -/
def passOver : List Token → Awaiting → List Bracket → Except Fault (List Token)
  | [], _, _ => .error .truncated
  | .closing b :: rest, awaiting, stack =>
    match awaiting, stack with
    | .value, _ => .error .malformed
    | _, [] => .error .malformed
    | _, inner :: outer =>
      if b ≠ inner then .error .malformed
      else match outer with
        | [] => .ok rest
        | _ => passOver rest .next outer
  | .comma :: rest, .next, .square :: stack => passOver rest .value (.square :: stack)
  | .comma :: rest, .next, .curly :: stack =>
    match rest with
    | .string _ loose :: .colon :: rest =>
      match loose with
      | none => passOver rest .value (.curly :: stack)
      | some f => .error f
    | .string _ (some f) :: _ => .error f
    | .string _ none :: rest => .error (expected rest)
    | _ => .error (expected rest)
  | .string _ loose :: rest, .fresh, .curly :: stack =>
    match loose with
    | some f => .error f
    | none =>
      match rest with
      | .colon :: rest => passOver rest .value (.curly :: stack)
      | _ => .error (expected rest)
  | _ :: _, .fresh, .curly :: _ => .error .malformed
  | _ :: _, .next, _ => .error .malformed
  | token :: rest, _, stack =>
    let scalar (fault : Option Fault) : Except Fault (List Token) :=
      match fault, stack with
      | some f, _ => .error f
      | none, [] => .ok rest
      | none, _ => passOver rest .next stack
    match token with
    | .opening b => passOver rest .fresh (b :: stack)
    | .literal (.ok _) => scalar none
    | .literal (.error f) => scalar (some f)
    | .number _ wellFormed => scalar (if wellFormed then none else some .malformed)
    | .string _ loose => scalar loose
    | _ => .error .malformed

/-- A field of a record: how its value changes the record. -/
structure Field (ρ : Type) where
  names : List String
  required : Bool
  read : Decoder (ρ → ρ)

def field (name : String) (d : Decoder α) (set : α → ρ → ρ) : Field ρ :=
  ⟨[name], false, d.map set⟩

def requiredField (name : String) (d : Decoder α) (set : α → ρ → ρ) : Field ρ :=
  ⟨[name], true, d.map set⟩

def place? (fields : List (Field ρ)) (key : String) : Option (Nat × Field ρ) :=
  (fields.zipIdx.find? fun (f, _) => f.names.contains key).map fun (f, i) => (i, f)

def complete (fields : List (Field ρ)) (seen : List Nat) : Bool :=
  fields.zipIdx.all fun (f, i) => !f.required || seen.contains i

/-- The members of a record. A field that comes twice is refused at its second key; other
members are passed over. -/
def fieldsOnto (fields : List (Field ρ)) (budget : Budget) :
    Nat → Bool → List Token → List Nat → ρ → Except Fault (ρ × List Token)
  | 0, _, _, _, _ => .error .malformed
  | fuel + 1, first, ts, seen, record => do
    match ← nextKey first ts with
    | none => if complete fields seen then return (record, ts) else .error .mismatched
    | some (key, ts) =>
      match place? fields key with
      | none =>
        let ts ← passColon ts
        let ts ← passOver ts .value []
        fieldsOnto fields budget fuel false ts seen record
      | some (i, f) =>
        if seen.contains i then .error .mismatched
        else
          let ts ← passColon ts
          let (change, ts) ← f.read budget ts
          fieldsOnto fields budget fuel false ts (i :: seen) (change record)

/-- The values of a record in the order of its fields; those missing at the end keep their
defaults. -/
def valuesOnto (budget : Budget) :
    List (Field ρ) → Bool → List Token → ρ → Except Fault (ρ × List Token)
  | [], _, ts, record => .ok (record, ts)
  | f :: fields, first, ts, record => do
    match ← nextItem first ts with
    | none => if (f :: fields).any (·.required) then .error .mismatched else return (record, ts)
    | some ts =>
      let (change, ts) ← f.read budget ts
      valuesOnto budget fields false ts (change record)

/-- A record, as an object of its fields or as a list of their values. -/
def record (fields : List (Field ρ)) (blank : ρ) : Decoder ρ := fun budget ts =>
  match ts with
  | .opening .curly :: ts => do
    let inner ← enter budget
    let (r, ts) ← fieldsOnto fields inner (budget.items + 1) true ts [] blank
    let ts ← leave .curly ts
    return (r, ts)
  | .opening .square :: ts => do
    let inner ← enter budget
    let (r, ts) ← valuesOnto inner fields true ts blank
    let ts ← leave .square ts
    return (r, ts)
  | _ => .error (refusal ts)

def greatestDepth : Nat := 127

def decode (d : Decoder α) (document : List Symbol) : Except Fault α := do
  let ts := tokens document
  let (a, rest) ← d ⟨greatestDepth, ts.length⟩ ts
  match rest with
  | [] => return a
  | _ => .error .malformed

def decodeText (d : Decoder α) (text : String) : Except Fault α := decode d (Symbol.ofText text)

end Hotplug.Json
