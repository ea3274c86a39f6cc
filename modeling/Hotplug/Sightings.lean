import Hotplug.Pod
/-!
The networks annotations of the pods that were seen. A pod is reported when it was known and
its annotation changed; one that is new is only taken down.
-/
namespace Hotplug

structure Sightings where
  known : List (String × Option String) := []
  deriving DecidableEq, Repr

namespace Sightings

def networksOf? (s : Sightings) (key : String) : Option (Option String) := s.known.lookup key

def erase (s : Sightings) (key : String) : Sightings := ⟨s.known.filter (·.1 != key)⟩

def insert (s : Sightings) (key : String) (networks : Option String) : Sightings :=
  ⟨(s.erase key).known ++ [(key, networks)]⟩

def size (s : Sightings) : Nat := s.known.length

def isChange (s : Sightings) (key : String) (networks : Option String) : Bool :=
  match s.networksOf? key with
  | some previous => previous != networks
  | none => false

/-- Takes a pod down: its key, if its networks changed. A pod without a key is no matter. -/
def observe (s : Sightings) (pod : Pod) : Option String × Sightings :=
  match pod.key? with
  | none => (none, s)
  | some key =>
    (if s.isChange key pod.networks then some key else none, s.insert key pod.networks)

def forget (s : Sightings) (pod : Pod) : Sightings :=
  match pod.key? with
  | none => s
  | some key => s.erase key

def changed? (s : Sightings) (pod : Pod) : Option String :=
  pod.key?.filter (s.isChange · pod.networks)

/-- Starts over from a listing: the keys whose networks changed since before it. -/
def restart (s : Sightings) (pods : List Pod) : List String × Sightings :=
  (pods.filterMap s.changed?, pods.foldl (fun s pod => (s.observe pod).2) {})

end Sightings

end Hotplug
