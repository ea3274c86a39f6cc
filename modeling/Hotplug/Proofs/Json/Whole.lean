import Hotplug.Proofs.Json.Integral
import Hotplug.Proofs.Json.Rendering
/-!
Values whose numbers are integers. Written out they are read again as they were.
-/
namespace Hotplug.Json

open Hotplug.Decimal

variable {v : Value} {depth : Nat}

/-- A number that is written without fraction and exponent and fits 64 bits. Minus zero is one, and
is kept as a real. -/
inductive Number.Whole : Number → Prop
  | int (n : Int) : Whole (.int n)
  | minusZero : Whole (.real Binary64.zero.negate)

inductive Value.Whole : Value → Prop
  | null : Whole .null
  | bool (b : Bool) : Whole (.bool b)
  | number {n : Number} : n.Whole → Whole (.number n)
  | string (s : String) : Whole (.string s)
  | array {items : List Value} : (∀ item ∈ items, Whole item) → Whole (.array items)
  | object {members : Members} : (∀ m ∈ members, Whole m.2) → Whole (.object members)

/-- A numeral without fraction and exponent says a whole number if it fits 64 bits. -/
theorem Numeral.value_whole {n : Numeral} (fraction : n.fraction = []) (exponent : n.exponent = none)
    (fits : if n.negative then appendDigits 0 n.whole ≤ 2 ^ 63 else appendDigits 0 n.whole < 2 ^ 64) :
    ∃ number, n.value? = some number ∧ number.Whole := by
  have size : greatestWord + 1 = 2 ^ 64 := by decide
  have twice : UInt64.size = 2 ^ 64 := by decide
  have word : appendDigits 0 n.whole ≤ greatestWord := by
    split at fits <;> omega
  simp only [value?, gather_all word, fraction, exponent]
  split
  · exact ⟨_, rfl, .int _⟩
  · rename_i negative
    rw [if_pos (by simpa using negative)] at fits
    split
    · exact ⟨_, rfl, .int _⟩
    · rename_i zero
      have none : appendDigits 0 n.whole = 0 := by omega
      rw [none]
      exact ⟨_, rfl, .minusZero⟩

theorem Number.Whole.token {n : Number} (whole : n.Whole) (fit : n.Fit) :
    n.token = .number (.ok n) true := by
  have value : n.numeral.value? = some n := by
    cases whole with
    | int n => exact Numeral.value_int fit
    | minusZero => decide +kernel
  rw [n.token_eq, value]
  rfl

theorem reads_flat_whole (plain : Plain v) (sound : v.Sound depth) :
    Reads (valueOf depth) v depth fun w => v.Whole → w = v := by
  intro room rest fits
  obtain ⟨w, read, rough⟩ := reads_plain plain sound room rest fits
  refine ⟨w, read, fun whole => ?_⟩
  cases whole with
  | null => exact Value.Integral.null.eq_of_rough rough
  | bool b => exact (Value.Integral.bool b).eq_of_rough rough
  | string s => exact (Value.Integral.string s).eq_of_rough rough
  | @number n whole =>
    rw [valueOf_plain plain, Value.tokens, whole.token (fit_of_sound sound)] at read
    obtain ⟨rfl, -⟩ := Prod.mk.inj (Except.ok.inj read)
    rfl
  | @array items _ => exact absurd (array_tokens items) (plain _ _)
  | @object members _ => exact absurd (object_tokens members) (plain _ _)

theorem eq_of_forall₂ {α : Type} {good : α → Prop} {as bs : List α}
    (same : List.Forall₂ (fun a b => good a → b = a) as bs) (all : ∀ a ∈ as, good a) : bs = as := by
  induction same with
  | nil => rfl
  | cons head _ ih =>
    obtain ⟨first, later⟩ := List.forall_mem_cons.mp all
    rw [head first, ih later]

theorem reads_whole (sound : v.Sound depth) (whole : v.Whole) :
    Reads (valueOf depth) v depth (· = v) := by
  have kept : Reads (valueOf depth) v depth fun w => v.Whole → w = v := by
    apply reads_parts (fun v w => v.Whole → w = v) _ _ _ sound
    · intro v depth plain sound
      exact reads_flat_whole plain sound
    · intro items found same whole
      cases whole with
      | array each => rw [eq_of_forall₂ same each]
    · intro members found same whole
      cases whole with
      | object each =>
        have alike : List.Forall₂ (fun m n => m.2.Whole → n = m) members found :=
          same.imp fun m n is whole => Prod.ext is.1 (is.2 whole)
        rw [eq_of_forall₂ alike each]
  exact kept.mono fun w is => is whole

theorem reads_members {ms : Members} (distinct : Distinct ms)
    (sound : ∀ m ∈ ms, m.2.Sound depth) (whole : ∀ m ∈ ms, m.2.Whole) :
    Reads members (.object ms) (depth + 1) (· = ms) := by
  have each : ∀ m ∈ ms, Reads value m.2 depth (· = m.2) :=
    fun m mem => reads_whole (sound m mem) (whole m mem)
  apply (reads_membersOf each distinct).mono
  intro found same
  have alike : List.Forall₂ (fun m n => m.2.Whole → n = m) ms found :=
    same.imp fun m n is _ => Prod.ext is.1 is.2
  exact eq_of_forall₂ alike whole

/-- Members that are written out are read again as they were. -/
theorem decodeText_compact {ms : Members} (distinct : Distinct ms)
    (sound : ∀ m ∈ ms, m.2.Sound 126) (whole : ∀ m ∈ ms, m.2.Whole) :
    decodeText members (Value.object ms).compact = .ok ms := by
  obtain ⟨_, read, rfl⟩ :=
    (reads_members distinct sound whole).decode (tokens_compact (.object ms))
  exact read

end Hotplug.Json
