import Hotplug.Proofs.Json.Whole
/-!
Values as they are stored in memory: of any depth, but without a key that comes twice. Such a
value is read back from its text by whoever sets no limit to the levels.
-/
namespace Hotplug.Json

/-- A value whose numbers are integers of 64 bits or minus zero, and no object of which repeats a
key. -/
inductive Value.Stored : Value → Prop
  | null : Stored .null
  | bool (b : Bool) : Stored (.bool b)
  | int {n : Int} : -2 ^ 63 ≤ n → n < 2 ^ 64 → Stored (.number (.int n))
  | minusZero : Stored (.number (.real Decimal.Binary64.zero.negate))
  | string (s : String) : Stored (.string s)
  | array {items : List Value} : (∀ item ∈ items, Stored item) → Stored (.array items)
  | object {members : Members} : (members.map (·.1)).Nodup → (∀ m ∈ members, Stored m.2) →
    Stored (.object members)

namespace Value.Stored

variable {v : Value}

theorem whole (stored : v.Stored) : v.Whole := by
  induction stored with
  | null => exact .null
  | bool b => exact .bool b
  | int _ _ => exact .number (.int _)
  | minusZero => exact .number .minusZero
  | string s => exact .string s
  | array _ ih => exact .array ih
  | object _ _ ih => exact .object ih

theorem sound (stored : v.Stored) {depth : Nat} (room : v.tokens.length ≤ depth) :
    v.Sound depth := by
  induction stored generalizing depth with
  | null | bool _ | string _ => cases depth <;> trivial
  | int low high => cases depth <;> exact ⟨low, high⟩
  | minusZero => cases depth <;> exact Decimal.Binary64.valid_zero.negate
  | @array items _ ih =>
    cases depth with
    | zero => simp [array_tokens] at room
    | succ depth =>
      intro item mem
      have within := (array_room room).2 item mem
      exact ih item mem (by omega)
  | @object members distinct _ ih =>
    cases depth with
    | zero => simp [object_tokens] at room
    | succ depth =>
      refine ⟨distinct, fun m mem => ?_⟩
      have within := (object_room room).2 m mem
      exact ih m mem (by omega)

end Value.Stored

def read? (text : String) : Option Value :=
  let ts := tokens (Text.Symbol.ofText text)
  match value ⟨ts.length, ts.length⟩ ts with
  | .ok (v, []) => some v
  | _ => none

theorem read_compact {v : Value} (stored : v.Stored) : read? v.compact = some v := by
  have reads : Reads value v v.tokens.length (· = v) :=
    reads_whole (stored.sound (Nat.le_refl _)) stored.whole
  obtain ⟨_, read, rfl⟩ := reads v.tokens.length [] (Nat.le_refl _)
  rw [List.append_nil] at read
  simp only [read?, tokens_compact, read]

end Hotplug.Json
