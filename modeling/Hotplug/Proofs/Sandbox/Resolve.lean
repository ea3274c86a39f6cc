import Hotplug.Sandbox.Resolve
import Hotplug.Proofs.Trace
/-!
What is asked of the runtime to find a pod's sandbox and its network namespace, and what the
answers make of it. What the runtime does between two questions is not covered.
-/
namespace Hotplug.Sandbox

def listing (uid : String) (answer : Except RuntimeFault ListResponse) : Exchange :=
  ⟨.listSandboxes (ofPod uid), answer⟩

def inspection (sandbox : String) (answer : Except RuntimeFault StatusResponse) : Exchange :=
  ⟨.sandboxStatus ⟨sandbox, true⟩, answer⟩

/-- What is asked for a network namespace, and what comes of it. -/
inductive Searched (uid : String) : List Exchange → Except RuntimeFault String → Prop
  | unfound {listed : Except RuntimeFault ListResponse} {fault : RuntimeFault} :
    listed >>= only uid = .error fault → Searched uid [listing uid listed] (.error fault)
  | inspected {listed : Except RuntimeFault ListResponse} {sandbox : String}
      (status : Except RuntimeFault StatusResponse) :
    listed >>= only uid = .ok sandbox →
    Searched uid [listing uid listed, inspection sandbox status] (status >>= netnsIn sandbox)

variable {uid : String} {t : List Exchange}
  {post : Except RuntimeFault String → List Exchange → Prop}

theorem heard_find (all : ∀ answer, post (answer >>= only uid) (t ++ [listing uid answer])) :
    (find uid).Obeys Action.recording t post := by
  unfold find
  rw [Action.obeys_bind]
  apply Action.obeys_heard
  intro answer
  exact all answer

theorem heard_findNetns (all : ∀ x found, Searched uid x found → post found (t ++ x)) :
    (findNetns uid).Obeys Action.recording t post := by
  unfold findNetns
  rw [Action.obeys_bind]
  apply heard_find
  intro listed
  cases found : listed >>= only uid with
  | error fault => exact all _ _ (.unfound found)
  | ok sandbox =>
    simp only [Action.obeys_bind]
    apply Action.obeys_heard
    intro status
    have whole := all _ _ (.inspected status found)
    rw [List.append_cons] at whole
    exact whole

theorem Searched.steps {heard : List Exchange} {found : Except RuntimeFault String}
    {netns : String} (searched : Searched uid heard found) (ok : found = .ok netns) :
    ∃ listed sandbox status, heard = [listing uid listed, inspection sandbox status] ∧
      listed >>= only uid = .ok sandbox ∧ status >>= netnsIn sandbox = .ok netns := by
  cases searched with
  | unfound _ => cases ok
  | @inspected listed sandbox status named => exact ⟨listed, sandbox, status, rfl, named, ok⟩

end Hotplug.Sandbox
