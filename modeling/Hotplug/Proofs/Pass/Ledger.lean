import Hotplug.Pass
import Hotplug.Proofs.Action
import Hotplug.Proofs.Naming
/-!
A ledger of what passes read, ask for and get, next to the pod's status as it was written last.
Its rules say when the delegate may be asked for an interface: not while an earlier answer plugged
it in and nothing unplugged it since, as long as every pass read that last status.
-/
namespace Hotplug

open Delegate

/-- An interface and the definition of its network. -/
structure Plug where
  ns : String
  name : String
  interface : String
  deriving DecidableEq, Repr

structure Plug.WellNamed (p : Plug) : Prop where
  ns_nonempty : p.ns ≠ ""
  name_nonempty : p.name ≠ ""
  ns_clean : Clean p.ns
  name_clean : Clean p.name
  interface_clean : Clean p.interface

def Plug.network (p : Plug) : String := namespacedName p.ns p.name

inductive Record where
  | read (fresh : Bool)
  | sent (plug : Plug)
  | plugged (plug : Plug)
  | unplugged (plug : Plug)
  deriving DecidableEq, Repr

structure Ledger where
  status : Option String := none
  sought : String × String := ("", "")
  log : List Record := []
  deriving DecidableEq, Repr

namespace Ledger

/-- What is plugged in and not forgotten: reading another status than the last one loses all. -/
def held : List Record → List Plug
  | [] => []
  | .plugged p :: log => p :: held log
  | .unplugged p :: log => (held log).filter (· ≠ p)
  | .read false :: _ => []
  | .read true :: log => held log
  | .sent _ :: log => held log

theorem held_read_le (fresh : Bool) (log : List Record) :
    ∀ p ∈ held (.read fresh :: log), p ∈ held log := by
  intro p mem
  cases fresh with
  | true => exact mem
  | false => simp [held] at mem

theorem mem_held_of_plugged {p : Plug} {between before : List Record}
    (kept : .unplugged p ∉ between) (fresh : .read false ∉ between) :
    p ∈ held (between ++ .plugged p :: before) := by
  induction between with
  | nil => simp [held]
  | cons record between ih =>
    simp only [List.mem_cons, not_or] at kept fresh
    have mem := ih kept.2 fresh.2
    cases record with
    | read seen =>
      cases seen with
      | true => exact mem
      | false => exact absurd rfl fresh.1
    | sent q => exact mem
    | plugged q => exact List.mem_cons_of_mem q mem
    | unplugged q =>
      have other : p ≠ q := fun same => kept.1 (by rw [same])
      exact List.mem_filter.mpr ⟨mem, by simpa using other⟩

def plug (s : Ledger) (request : Request) : Plug := ⟨s.sought.1, s.sought.2, request.interface⟩

def records (s : Ledger) (request : Request) (answer : Except DelegateFault Response) :
    List Record :=
  match request.command, answer with
  | .add, .ok response =>
    if response.result.isSome then [.plugged (s.plug request), .sent (s.plug request)]
    else [.sent (s.plug request)]
  | .add, .error _ => [.sent (s.plug request)]
  | .del, .ok _ => [.unplugged (s.plug request)]
  | .del, .error _ => []

def allows (s : Ledger) : Effect → Prop
  | .invoke request => request.command = .add → s.plug request ∉ held s.log
  | _ => True

def after (s : Ledger) : (e : Effect) → e.Answer → Ledger
  | .findPod _ _, found =>
    match found with
    | some pod => { s with log := .read (pod.status == s.status) :: s.log }
    | none => s
  | .findDefinition ns name, _ => { s with sought := (ns, name) }
  | .invoke request, answer => { s with log := s.records request answer ++ s.log }
  | .writeStatus _ _ status, _ => { s with status := some status }
  | _, _ => s

/-- What the world guarantees: pods have a namespace, names have no slashes, a plugged interface
has the requested name, and a status can be written. -/
def Lawful : (e : Effect) → e.Answer → Prop
  | .findPod _ _, found => ∀ pod ∈ found, pod.ns.getD "" ≠ ""
  | .findDefinition ns name, found => found.isSome → ns ≠ "" ∧ name ≠ "" ∧ Clean ns ∧ Clean name
  | .invoke request, answer => ∀ response, answer = .ok response → Clean request.interface ∧
      ∀ result ∈ response.result, request.command = .add →
        (StatusEntry.ofResult "" result request.interface).interface = request.interface
  | .writeStatus _ _ _, outcome => outcome = .ok ()
  | _, _ => True

def rules : Rules Ledger where
  allows := allows
  gives := fun _ => Lawful
  after := after

section
variable {s : Ledger}

theorem obeys_asked {e : Effect} {post : e.Answer → Ledger → Prop} (allowed : s.allows e)
    (all : ∀ answer, Lawful e answer → post answer (s.after e answer)) :
    (Action.ask e).Obeys rules s post :=
  ⟨allowed, all⟩

theorem obeys_unnoted {e : Effect} {post : e.Answer → Ledger → Prop} (allowed : s.allows e)
    (unnoted : ∀ answer, s.after e answer = s) (all : ∀ answer, Lawful e answer → post answer s) :
    (Action.ask e).Obeys rules s post := by
  refine obeys_asked allowed fun answer lawful => ?_
  rw [unnoted answer]
  exact all answer lawful

@[simp]
theorem obeys_tell {level : Log.Level} {text : String} {post : Unit → Ledger → Prop} :
    (Action.tell level text).Obeys rules s post ↔ post () s :=
  ⟨fun h => h.2 () trivial, fun h => obeys_unnoted trivial (fun _ => rfl) fun _ _ => h⟩

@[simp]
theorem obeys_publish {pod : Pod} {event : Event} {post : Unit → Ledger → Prop} :
    (Action.ask (.publish pod event)).Obeys rules s post ↔ post () s :=
  ⟨fun h => h.2 () trivial, fun h => obeys_unnoted trivial (fun _ => rfl) fun _ _ => h⟩

end

end Ledger

end Hotplug
