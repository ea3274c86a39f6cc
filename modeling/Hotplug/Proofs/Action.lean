import Hotplug.Action
/-!
Programs under rules: what they may ask in a state of affairs, how that may be answered, and what
the answer makes of the state. A program obeys the rules if all it asks is allowed, whatever the
answers are. What a handler does with a program is not covered.
-/
namespace Hotplug

structure Rules (σ : Type) where
  allows : σ → Effect → Prop
  gives : σ → (e : Effect) → e.Answer → Prop
  after : σ → (e : Effect) → e.Answer → σ

namespace Action

variable {σ α β : Type} {rules : Rules σ} {s : σ} {post post' : α → σ → Prop}

/-- All that the program asks from here on is allowed, and it ends as it should. -/
def Obeys (rules : Rules σ) : Action α → σ → (α → σ → Prop) → Prop
  | .done a, s, post => post a s
  | .step e next, s, post =>
    rules.allows s e ∧
      ∀ answer, rules.gives s e answer → Obeys rules (next answer) (rules.after s e answer) post

theorem Obeys.mono {p : Action α} (h : p.Obeys rules s post) (le : ∀ a t, post a t → post' a t) :
    p.Obeys rules s post' := by
  induction p generalizing s with
  | done a => exact le a s h
  | step e next ih =>
    obtain ⟨allowed, rest⟩ := h
    exact ⟨allowed, fun answer given => ih answer (rest answer given)⟩

@[simp]
theorem obeys_pure {a : α} : (pure a : Action α).Obeys rules s post ↔ post a s := Iff.rfl

@[simp]
theorem obeys_bind {p : Action α} {f : α → Action β} {post : β → σ → Prop} :
    (p >>= f).Obeys rules s post ↔ p.Obeys rules s fun a t => (f a).Obeys rules t post := by
  show (p.bind f).Obeys rules s post ↔ _
  induction p generalizing s with
  | done a => exact Iff.rfl
  | step e next ih =>
    constructor
    · rintro ⟨allowed, rest⟩
      exact ⟨allowed, fun answer given => (ih answer).mp (rest answer given)⟩
    · rintro ⟨allowed, rest⟩
      exact ⟨allowed, fun answer given => (ih answer).mpr (rest answer given)⟩

@[simp]
theorem obeys_ask {e : Effect} {post : e.Answer → σ → Prop} :
    (ask e).Obeys rules s post ↔
      rules.allows s e ∧ ∀ a, rules.gives s e a → post a (rules.after s e a) := Iff.rfl

/-- All that the program asks is of one kind. -/
def Asks (kind : Effect → Prop) : Action α → Prop
  | .done _ => True
  | .step e next => kind e ∧ ∀ answer, Asks kind (next answer)

variable {kind : Effect → Prop}

@[simp]
theorem asks_pure {a : α} : (pure a : Action α).Asks kind := trivial

@[simp]
theorem asks_ask {e : Effect} : (ask e).Asks kind ↔ kind e :=
  ⟨fun h => h.1, fun h => ⟨h, fun _ => trivial⟩⟩

theorem Asks.bind {p : Action α} {f : α → Action β} (h : p.Asks kind)
    (onward : ∀ a, (f a).Asks kind) : (p >>= f).Asks kind := by
  show (p.bind f).Asks kind
  induction p with
  | done a => exact onward a
  | step e next ih => exact ⟨h.1, fun answer => ih answer (h.2 answer)⟩

theorem Asks.obeys {p : Action α} (h : p.Asks kind) {inv : σ → Prop}
    (keeps : ∀ s e, inv s → kind e →
      rules.allows s e ∧ ∀ a, rules.gives s e a → inv (rules.after s e a))
    (start : inv s) : p.Obeys rules s fun _ => inv := by
  induction p generalizing s with
  | done a => exact start
  | step e next ih =>
    obtain ⟨allowed, after⟩ := keeps s e start h.1
    exact ⟨allowed, fun answer given => ih answer (h.2 answer) (after answer given)⟩

end Action

end Hotplug
