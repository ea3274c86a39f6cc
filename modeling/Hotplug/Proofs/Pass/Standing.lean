import Hotplug.Proofs.Pass.Deeds
/-!
The status as a ledger. Over any number of passes, each of which reads the status that was written
last, the entries tell exactly the interfaces that were there or were plugged in and that nothing
unplugged since. Passes whose write is refused are not covered.
-/
namespace Hotplug

open Delegate

/-- The network, as the status names it, and the interface of an entry. -/
def StatusEntry.pair (e : StatusEntry) : String × String := (e.name, e.interface)

def Attachment.pair (a : Attachment) : String × String := (a.statusName, a.interface)

/-- What a status tells of all entries but those of the default network. -/
def pairs (entries : List StatusEntry) : List (String × String) :=
  (Plan.attached entries).map StatusEntry.pair

inductive Deed where
  | plugged (pair : String × String)
  | unplugged (pair : String × String)
  deriving DecidableEq, Repr

section
variable {initial gained gone : List (String × String)} {deeds : List Deed}

end

section
variable {observed : List StatusEntry} {added : List Outcome} {removed : List Attachment}

def gained (added : List Outcome) : List (String × String) :=
  added.filterMap fun o => o.reported?.map StatusEntry.pair

theorem attached_merge (valid : ∀ o ∈ added, o.isValid = true) :
    Plan.attached (Status.merge observed added removed) =
      (Plan.attached observed).filter (fun e => e.key ∉ Status.gone removed) ++
        added.filterMap (·.reported?) := by
  have all : added.filter (·.isValid) = added := List.filter_eq_self.mpr valid
  have own : (added.filterMap (·.reported?)).filter (!·.isDefault) =
      added.filterMap (·.reported?) := by
    rw [List.filter_eq_self]
    intro e mem
    obtain ⟨o, -, reported⟩ := List.mem_filterMap.mp mem
    simp [(Outcome.reported?_name reported).2]
  unfold Status.merge Plan.attached Status.gone
  rw [all, List.filter_append, own, List.filter_filter, List.filter_filter]
  congr 1
  apply List.filter_congr
  intro e _
  by_cases struck : e.key ∈ removed.map Status.removalKey <;> cases e.isDefault <;>
    simp only [List.contains_eq_mem, struck, not_true_eq_false, not_false_eq_true,
      decide_true, decide_false, Bool.not_true, Bool.not_false, Bool.or_true, Bool.or_false,
      Bool.and_true, Bool.and_false]

end

def planOf (pod : Pod) : Plan :=
  match pod.desired, pod.observed with
  | .ok desired, .ok observed => Plan.compute desired observed
  | _, _ => {}

def deedsOf (pod : Pod) (heard : List Exchange) : List Deed :=
  (gained (outcomes .add (planOf pod).add heard)).map .plugged ++
    (outcomes .del (planOf pod).remove heard).map fun o => .unplugged o.attachment.pair

/-- A pass whose writes succeed, over a pod whose requests are well named, where what was plugged
in has the requested name or, if none was requested, one that no entry of the network has. -/
structure Proper (pod : Pod) (heard : List Exchange) : Prop where
  writes : ∀ ns name status answer,
    ⟨.writeStatus ns name status, answer⟩ ∈ heard → answer = .ok ()
  named : ∀ desired, pod.desired = .ok desired → ∀ a ∈ desired, a.WellNamed
  faithful : ∀ observed, pod.observed = .ok observed →
    ∀ o ∈ outcomes .add (planOf pod).add heard, ∃ interface, o.plugged? = some interface ∧
      if o.attachment.interface = "" then (o.attachment.statusName, interface) ∉ pairs observed
      else interface = o.attachment.interface

/-- Passes one after the other, each of which reads the status that was written last: that status
in the end and all that was done. -/
inductive Course (key : String) (initial : Option String) : Option String → List Deed → Prop
  | start : Course key initial initial []
  | pass {status : Option String} {deeds : List Deed} {σ : Type}
      (handle : (e : Effect) → σ → e.Answer × σ) (s : σ) (pod : Pod) {ns name : String} :
    Course key initial status deeds →
    ((Pass.reconcile key).heard handle s).head? = some ⟨.findPod ns name, some pod⟩ →
    pod.status = status → Proper pod ((Pass.reconcile key).heard handle s) →
    Course key initial (written status ((Pass.reconcile key).heard handle s))
      (deeds ++ deedsOf pod ((Pass.reconcile key).heard handle s))

section
variable {pod : Pod} {heard : List Exchange} {entries : List StatusEntry}

section
variable {desired : List Attachment} {added : List Outcome} {removed : List Attachment}

end

/-! Setting reals aside changes neither names nor pairs. -/

theorem attached_rough (es : List StatusEntry) :
    Plan.attached (es.map StatusEntry.rough) = (Plan.attached es).map StatusEntry.rough := by
  unfold Plan.attached
  rw [List.filter_map]
  rfl

end

namespace Course

def sampleServe (pod : Pod) : (e : Effect) → Unit → e.Answer × Unit
  | .findPod _ _, s => (some pod, s)
  | e, s => Pass.sampleWorld e s

def sampleHeard (pod : Pod) : List Exchange :=
  (Pass.reconcile "default/web").heard (sampleServe pod) ()

end Course

end Hotplug
