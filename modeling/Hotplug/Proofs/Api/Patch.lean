import Hotplug.Api.Request
import Hotplug.Pod
/-!
What the API server makes of a merge patch, as far as pods are modelled: the body names the
annotations to change, and any other field of the metadata that it names is a condition on the
pod. A status patch names no such field. Versions of pods are not covered: a patch that named one
would fit no pod.
-/
namespace Hotplug.Api

open Hotplug.Json

def membersOf : Option Value → Members
  | some (.object members) => members
  | _ => []

namespace Request

def metadata (r : Request) : Members := membersOf ((membersOf (some r.body)).get? "metadata")

def annotations (r : Request) : Members := membersOf (r.metadata.get? "annotations")

/-- A field that tells a pod from all others. -/
def identity? (pod : Pod) (field : String) : Option String :=
  if field = "uid" then pod.uid
  else if field = "name" then pod.name
  else if field = "namespace" then pod.ns
  else none

/-- Whether the pod has what the patch says of it besides its annotations. -/
def fits (r : Request) (pod : Pod) : Bool :=
  r.metadata.all fun (field, value) =>
    field == "annotations" || (identity? pod field).map Value.string == some value

/-- The value of an annotation after the patch; null strikes it out. -/
def annotated (r : Request) (key : String) (old : Option String) : Option String :=
  match r.annotations.get? key with
  | none => old
  | some (.string new) => some new
  | some _ => none

def applied (r : Request) (pod : Pod) : Pod :=
  { pod with
    networks := r.annotated networksKey pod.networks
    status := r.annotated statusKey pod.status }

end Request

variable (ns name status : String) (pod : Pod)

/-- Whoever the pod is by now, it gets the status. -/
theorem fits_statusPatch : (statusPatch ns name status).fits pod = true := rfl

theorem applied_statusPatch :
    (statusPatch ns name status).applied pod = { pod with status := some status } := rfl

end Hotplug.Api
