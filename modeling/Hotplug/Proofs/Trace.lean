import Hotplug.Proofs.Action
import Mathlib.Data.List.Basic
/-!
What a handler hears of a program: all that it asks but for its log lines, with the answers, in
the order of asking. The states of the handler are not covered.
-/
namespace Hotplug

instance : (e : Effect) → DecidableEq e.Answer
  | .findPod _ _ => inferInstanceAs (DecidableEq (Option Pod))
  | .findDefinition _ _ => inferInstanceAs (DecidableEq (Option Definition))
  | .listSandboxes _ => inferInstanceAs (DecidableEq (Except RuntimeFault Sandbox.ListResponse))
  | .sandboxStatus _ => inferInstanceAs (DecidableEq (Except RuntimeFault Sandbox.StatusResponse))
  | .invoke _ => inferInstanceAs (DecidableEq (Except Delegate.DelegateFault Delegate.Response))
  | .publish _ _ | .log _ => inferInstanceAs (DecidableEq Unit)
  | .writeStatus _ _ _ => inferInstanceAs (DecidableEq (Except Api.Refusal Unit))

/-- An effect and what it was answered. -/
structure Exchange where
  effect : Effect
  answer : effect.Answer
  deriving DecidableEq

def Exchange.isHeard (x : Exchange) : Bool :=
  match x.effect with
  | .log _ => false
  | _ => true

namespace Action

variable {σ α β : Type}

def trace (handle : (e : Effect) → σ → e.Answer × σ) : Action α → σ → List Exchange
  | .done _, _ => []
  | .step e next, s =>
    ⟨e, (handle e s).1⟩ :: trace handle (next (handle e s).1) (handle e s).2

def heard (handle : (e : Effect) → σ → e.Answer × σ) (p : Action α) (s : σ) : List Exchange :=
  (p.trace handle s).filter (·.isHeard)

variable {handle : (e : Effect) → σ → e.Answer × σ} {s : σ}

theorem run_bind {p : Action α} {f : α → Action β} :
    (p >>= f).run handle s = (f (p.run handle s).1).run handle (p.run handle s).2 := by
  show (p.bind f).run handle s = _
  induction p generalizing s with
  | done a => rfl
  | step e next ih => exact ih (handle e s).1

@[simp]
theorem heard_pure {a : α} : (pure a : Action α).heard handle s = [] := rfl

theorem heard_step {e : Effect} {next : e.Answer → Action α} :
    (step e next).heard handle s = [⟨e, (handle e s).1⟩].filter (·.isHeard) ++
      (next (handle e s).1).heard handle (handle e s).2 := by
  rw [heard, heard, ← List.filter_append, trace, List.singleton_append]

theorem heard_bind {p : Action α} {f : α → Action β} :
    (p >>= f).heard handle s =
      p.heard handle s ++ (f (p.run handle s).1).heard handle (p.run handle s).2 := by
  show (p.bind f).heard handle s = _
  induction p generalizing s with
  | done a => rfl
  | step e next ih =>
    rw [bind, heard_step, heard_step, ih, List.append_assoc]
    rfl

theorem answered_of_heard {p : Action α} {x : Exchange} (mem : x ∈ p.heard handle s) :
    ∃ t, x.answer = (handle x.effect t).1 := by
  induction p generalizing s with
  | done a => cases mem
  | step e next ih =>
    rw [heard_step, List.mem_append] at mem
    rcases mem with first | later
    · have same : x = ⟨e, (handle e s).1⟩ := List.mem_singleton.mp (List.mem_filter.mp first).1
      subst same
      exact ⟨s, rfl⟩
    · exact ih _ later

/-- Rules that allow everything and keep what was heard so far. -/
def recording : Rules (List Exchange) where
  allows := fun _ _ => True
  gives := fun _ _ _ => True
  after := fun heard e answer => heard ++ [⟨e, answer⟩].filter (·.isHeard)

variable {t : List Exchange}

theorem obeys_heard {e : Effect} {post : e.Answer → List Exchange → Prop}
    (all : ∀ answer, post answer (t ++ [⟨e, answer⟩].filter (·.isHeard))) :
    (ask e).Obeys recording t post :=
  ⟨trivial, fun answer _ => all answer⟩

@[simp]
theorem obeys_unheard {level : Log.Level} {text : String}
    {post : Unit → List Exchange → Prop} :
    (tell level text).Obeys recording t post ↔ post () t := by
  have same : t ++ [Exchange.mk (.log ⟨level, text⟩) ()].filter (·.isHeard) = t :=
    List.append_nil t
  constructor
  · intro h
    exact same ▸ h.2 () trivial
  · intro h
    apply obeys_heard
    intro _
    rw [same]
    exact h

/-- What holds whatever the answers are holds of every handler. -/
theorem heard_of_obeys (handle : (e : Effect) → σ → e.Answer × σ) (s : σ) {p : Action α}
    {post : α → List Exchange → Prop} (h : p.Obeys recording t post) :
    post (p.run handle s).1 (t ++ p.heard handle s) := by
  induction p generalizing s t with
  | done a =>
    show post a (t ++ [])
    rw [List.append_nil]
    exact h
  | step e next ih =>
    have onward := ih (handle e s).1 (handle e s).2 (h.2 (handle e s).1 trivial)
    rw [heard_step, ← List.append_assoc]
    exact onward

end Action

end Hotplug
