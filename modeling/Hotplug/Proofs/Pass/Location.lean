import Hotplug.Pass
import Hotplug.Proofs.Sandbox.Resolve
/-!
How a pass finds out where its pod lives: it lists the pod's sandboxes, asks the one it found for
its network namespace, and lists the sandboxes again. The two listings may disagree.
-/
namespace Hotplug.Pass

open Sandbox

inductive Located (uid : String) :
    List Exchange → Except PassFault (String × String) → Prop
  | homeless {heard : List Exchange} {fault : RuntimeFault} :
    Searched uid heard (.error fault) → Located uid heard (.error (.unresolved fault))
  | vanished {heard : List Exchange} {netns : String} {fault : RuntimeFault}
      {listed : Except RuntimeFault ListResponse} :
    Searched uid heard (.ok netns) → listed >>= only uid = .error fault →
    Located uid (heard ++ [listing uid listed]) (.error (.unresolved fault))
  | found {heard : List Exchange} {netns sandboxId : String}
      {listed : Except RuntimeFault ListResponse} :
    Searched uid heard (.ok netns) → listed >>= only uid = .ok sandboxId →
    Located uid (heard ++ [listing uid listed]) (.ok (netns, sandboxId))

variable {uid netns sandboxId : String} {heard t : List Exchange}
  {place : Except PassFault (String × String)}

theorem heard_locate {post : Except PassFault (String × String) → List Exchange → Prop}
    (all : ∀ x place, Located uid x place → post place (t ++ x)) :
    (locate uid).Obeys Action.recording t post := by
  unfold locate
  rw [Action.obeys_bind]
  apply heard_findNetns
  intro x found searched
  cases found with
  | error fault => exact all _ _ (.homeless searched)
  | ok netns =>
    simp only [Action.obeys_bind]
    apply heard_find
    intro listed
    rw [List.append_assoc]
    cases last : listed >>= only uid with
    | error fault => exact all _ _ (.vanished searched last)
    | ok sandboxId => exact all _ _ (.found searched last)

/-- A pod is located in three steps, of which the last need not name the sandbox of the first. -/
theorem Located.steps (located : Located uid heard (.ok (netns, sandboxId))) :
    ∃ first sandbox status second,
      heard = [listing uid first, inspection sandbox status, listing uid second] ∧
      first >>= only uid = .ok sandbox ∧ status >>= netnsIn sandbox = .ok netns ∧
      second >>= only uid = .ok sandboxId := by
  cases located with
  | @found _ _ _ second searched last =>
    obtain ⟨first, sandbox, status, rfl, named, path⟩ := searched.steps rfl
    exact ⟨first, sandbox, status, second, rfl, named, path, last⟩

end Hotplug.Pass
