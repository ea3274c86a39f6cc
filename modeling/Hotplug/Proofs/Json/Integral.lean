import Hotplug.Proofs.Json.Reading
/-!
Values without reals. Where reals were set aside, such a value is known exactly.
-/
namespace Hotplug.Json

inductive Value.Integral : Value → Prop
  | null : Integral .null
  | bool (b : Bool) : Integral (.bool b)
  | int (n : Int) : Integral (.number (.int n))
  | string (s : String) : Integral (.string s)
  | array {items : List Value} : (∀ item ∈ items, Integral item) → Integral (.array items)
  | object {members : Members} : (∀ m ∈ members, Integral m.2) → Integral (.object members)

theorem eq_of_map_eq {α β : Type} {f : α → β} {xs found : List α}
    (each : ∀ x ∈ xs, ∀ w, f w = f x → w = x) (same : found.map f = xs.map f) : found = xs := by
  induction xs generalizing found with
  | nil => exact List.map_eq_nil_iff.mp same
  | cons x xs ih =>
    obtain ⟨w, rest, rfl, head, tail⟩ := List.map_eq_cons_iff.mp same
    have first : w = x := each x (List.mem_cons_self ..) w head
    have others : rest = xs := ih (fun y mem => each y (List.mem_cons_of_mem _ mem)) tail
    rw [first, others]

theorem roughItems_eq (items : List Value) : roughItems items = items.map Value.rough := by
  induction items with
  | nil => rfl
  | cons item items ih => rw [roughItems, ih, List.map_cons]

theorem roughMembers_eq (members : Members) :
    roughMembers members = members.map fun m => (m.1, m.2.rough) := by
  induction members with
  | nil => rfl
  | cons m members ih => rw [roughMembers, ih, List.map_cons]

theorem Value.Integral.eq_of_rough {v w : Value} (integral : w.Integral)
    (same : v.rough = w.rough) : v = w := by
  induction integral generalizing v with
  | null => cases v <;> simp_all [Value.rough]
  | bool b => cases v <;> simp_all [Value.rough]
  | string s => cases v <;> simp_all [Value.rough]
  | int n =>
    cases v with
    | number m => cases m <;> simp_all [Value.rough, Number.rough]
    | _ => simp [Value.rough] at same
  | array _ ih =>
    cases v with
    | array found =>
      have inner := Value.array.inj same
      rw [roughItems_eq, roughItems_eq] at inner
      rw [eq_of_map_eq (fun item mem _ alike => ih item mem alike) inner]
    | _ => simp [Value.rough] at same
  | @object members _ ih =>
    cases v with
    | object found =>
      have inner := Value.object.inj same
      rw [roughMembers_eq, roughMembers_eq] at inner
      have each : ∀ m ∈ members, ∀ w : String × Value,
          (w.1, w.2.rough) = (m.1, m.2.rough) → w = m := by
        intro m mem w alike
        obtain ⟨key, value⟩ := Prod.mk.inj alike
        exact Prod.ext key (ih m mem value)
      rw [eq_of_map_eq each inner]
    | _ => simp [Value.rough] at same

end Hotplug.Json
