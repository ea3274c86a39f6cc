import Hotplug.Text.Basic
/-!
Pods as far as their networks matter, and the keys that name namespaced objects.
-/
namespace Hotplug

def networksKey : String := "k8s.v1.cni.cncf.io/networks"

def statusKey : String := "k8s.v1.cni.cncf.io/network-status"

structure Pod where
  ns : Option String := none
  name : Option String := none
  uid : Option String := none
  networks : Option String := none
  status : Option String := none
  hostNetworked : Bool := false
  deriving DecidableEq, Repr

def namespacedName (ns name : String) : String := ns ++ "/" ++ name

/-- A third segment, an interface name in some keys, is dropped. -/
def splitNamespacedName (key : String) : Option (String × String) :=
  match Text.splitAt '/' key.toList with
  | [ns, name] | [ns, name, _] => some (String.ofList ns, String.ofList name)
  | _ => none

def Pod.key? (pod : Pod) : Option String :=
  match pod.ns, pod.name with
  | some ns, some name => some (namespacedName ns name)
  | _, _ => none

/-- Whether the pod has this namespace and name; a missing one counts as empty. -/
def Pod.isNamed (pod : Pod) (ns name : String) : Bool :=
  pod.ns.getD "" == ns && pod.name.getD "" == name

def fieldSelector (node : String) : String :=
  "spec.nodeName=" ++ node ++ ",status.phase=Running"

end Hotplug
