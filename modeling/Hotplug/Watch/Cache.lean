import Hotplug.Api.Refusal
import Hotplug.Definition
import Hotplug.Pod
/-!
Caches of the cluster's objects. A cache holds an object for each namespace and name, as the
last listing and the changes since then have it.
-/
namespace Hotplug.Watch

structure Reference where
  ns : Option String
  name : String
  deriving DecidableEq, Repr

class Object (α : Type) where
  reference : α → Reference

instance : Object Pod := ⟨fun pod => ⟨pod.ns, pod.name.getD ""⟩⟩

instance : Object Definition := ⟨fun d => ⟨d.ns, d.name.getD ""⟩⟩

inductive Event (α : Type) where
  | restarted (objects : List α)
  | applied (object : α)
  | deleted (object : α)
  | failed (reason : String)

structure Cache (α : Type) where
  objects : List α := []
  deriving DecidableEq, Repr

namespace Cache

variable {α : Type} [Object α]

def find? (cache : Cache α) (ns name : String) : Option α :=
  cache.objects.find? (Object.reference · == ⟨some ns, name⟩)

def erase (cache : Cache α) (object : α) : Cache α :=
  ⟨cache.objects.filter (Object.reference · != Object.reference object)⟩

def insert (cache : Cache α) (object : α) : Cache α :=
  ⟨(cache.erase object).objects ++ [object]⟩

/-- The cache after an event. A failure leaves it as it is. -/
def handle (cache : Cache α) : Event α → Cache α
  | .restarted objects => objects.foldl insert {}
  | .applied object => cache.insert object
  | .deleted object => cache.erase object
  | .failed _ => cache

end Cache

inductive Message (α : Type) where
  | listed (objects : List α)
  | listRefused (refusal : Api.Refusal)
  | applied (object : α)
  | deleted (object : α)
  | refused (refusal : Api.Refusal)
  | closed

inductive Query where
  | list
  | watch
  deriving DecidableEq, Repr

namespace Message

variable {α : Type}

def gone : Nat := 410

def listFault (refusal : Api.Refusal) : String :=
  "failed to perform initial object list: ApiError: " ++ refusal.summary ++ " (" ++
    refusal.record ++ ")"

def watchFault (refusal : Api.Refusal) : String :=
  "error returned by apiserver during watch: " ++ refusal.summary

def event? : Message α → Option (Event α)
  | .listed objects => some (.restarted objects)
  | .listRefused refusal => some (.failed (listFault refusal))
  | .applied object => some (.applied object)
  | .deleted object => some (.deleted object)
  | .refused refusal => some (.failed (watchFault refusal))
  | .closed => none

/-- What the watcher asks next. A watch goes on until it is closed or changes were missed. -/
def next? : Message α → Option Query
  | .listed _ => some .watch
  | .listRefused _ => some .list
  | .applied _ | .deleted _ => none
  | .refused refusal => if refusal.code = gone then some .list else none
  | .closed => some .watch

end Message

def queries {α : Type} (messages : List (Message α)) : List Query :=
  .list :: messages.filterMap Message.next?

end Hotplug.Watch
