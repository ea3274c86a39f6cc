import Hotplug.Action
import Hotplug.Sandbox.Info
/-!
Where a running pod lives on the node: its one sandbox and the network namespace that the
runtime reports for it.
-/
namespace Hotplug.Sandbox

def podLabel : String := "io.kubernetes.pod.uid"

def infoKey : String := "info"

def ofPod (uid : String) : ListRequest := { filter := some { labels := [(podLabel, uid)] } }

def only (uid : String) (response : ListResponse) : Except RuntimeFault String :=
  match response.items with
  | [] => .error (.sandboxNotFound uid)
  | [sandbox] => .ok sandbox.id
  | _ => .error (.ambiguousSandbox uid)

def netnsIn (sandbox : String) (response : StatusResponse) : Except RuntimeFault String := do
  let some text := response.info.lookup infoKey | throw (.missingInfo sandbox)
  let info ← (Info.parse text).mapError (.malformedInfo sandbox ·)
  let some path := info.netns? | throw (.missingNetns sandbox)
  return path

def find (uid : String) : Action (Except RuntimeFault String) := do
  return (← Action.ask (.listSandboxes (ofPod uid))) >>= only uid

def findNetns (uid : String) : Action (Except RuntimeFault String) := do
  match ← find uid with
  | .error fault => return .error fault
  | .ok sandbox =>
    return (← Action.ask (.sandboxStatus ⟨sandbox, true⟩)) >>= netnsIn sandbox

end Hotplug.Sandbox
