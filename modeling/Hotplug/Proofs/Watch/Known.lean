import Hotplug.Proofs.Naming
import Hotplug.Proofs.WorkQueue.Coherence
import Hotplug.Watch.Reflector
import Mathlib.Data.List.Induction
/-!
What the events of a watch tell about one pod: whether it is there, and its networks as they
were seen last. The cache shows this and the sightings remember it, for events about pods that
have a namespace and a name. What else the cache shows of a pod is not covered.
-/
namespace Hotplug

def Pod.isAt (pod : Pod) (ns name : String) : Bool := pod.ns == some ns && pod.name == some name

/-- A pod whose namespace and name can be read back from its key. -/
def Pod.Named (pod : Pod) : Prop :=
  ∃ ns name, pod.ns = some ns ∧ pod.name = some name ∧ Clean ns ∧ Clean name

namespace Watch

variable {ns name : String}

def Event.objects {α : Type} : Event α → List α
  | .restarted objects => objects
  | .applied object | .deleted object => [object]
  | .failed _ => []

def Regular (event : Event Pod) : Prop := ∀ pod ∈ event.objects, pod.Named

def sight (ns name : String) (last : Option (Option String)) (pod : Pod) :
    Option (Option String) :=
  if pod.isAt ns name then some pod.networks else last

def learn (ns name : String) (last : Option (Option String)) :
    Event Pod → Option (Option String)
  | .restarted pods => pods.foldl (sight ns name) none
  | .applied pod => sight ns name last pod
  | .deleted pod => if pod.isAt ns name then none else last
  | .failed _ => last

def known (events : List (Event Pod)) (ns name : String) : Option (Option String) :=
  events.foldl (learn ns name) none

theorem known_concat (events : List (Event Pod)) (event : Event Pod) :
    known (events ++ [event]) ns name = learn ns name (known events ns name) event := by
  simp [known]

theorem exists_of_sights {pods : List Pod} {networks : Option String}
    (h : pods.foldl (sight ns name) none = some networks) :
    ∃ pod ∈ pods, pod.isAt ns name = true ∧ pod.networks = networks := by
  induction pods using List.reverseRecOn with
  | nil => simp at h
  | append_singleton pods pod ih =>
    rw [List.foldl_append, List.foldl_cons, List.foldl_nil] at h
    by_cases at_it : pod.isAt ns name
    · refine ⟨pod, by simp, at_it, ?_⟩
      simpa [sight, at_it] using h
    · obtain ⟨earlier, mem, rest⟩ := ih (by simpa [sight, at_it] using h)
      exact ⟨earlier, by simp [mem], rest⟩

theorem isAt_iff_key {pod : Pod} (named : pod.Named) (clean : Clean ns) :
    pod.isAt ns name = true ↔ pod.key? = some (namespacedName ns name) := by
  obtain ⟨pod_ns, pod_name, has_ns, has_name, ns_clean, -⟩ := named
  simp only [Pod.isAt, Pod.key?, has_ns, has_name, Bool.and_eq_true, beq_iff_eq,
    Option.some.injEq]
  constructor
  · rintro ⟨rfl, rfl⟩
    rfl
  · intro same
    exact segment_unique same ns_clean clean

end Watch

namespace Sightings

variable {s : Sightings} {key k : String}

theorem networksOf_erase :
    (s.erase key).networksOf? k = if k = key then none else s.networksOf? k := by
  by_cases same : k = key
  · subst same
    simp [networksOf?, erase, WorkQueue.lookup_struck]
  · simp [networksOf?, erase, same, WorkQueue.lookup_kept]

theorem networksOf_insert {networks : Option String} :
    (s.insert key networks).networksOf? k =
      if k = key then some networks else s.networksOf? k := by
  by_cases same : k = key
  · subst same
    simp [networksOf?, insert, erase, List.lookup_append, WorkQueue.lookup_struck]
  · have apart : (k == key) = false := beq_eq_false_iff_ne.mpr same
    simp [networksOf?, insert, erase, List.lookup_append, WorkQueue.lookup_kept _ same, same,
      List.lookup_cons, apart]

/-- The sightings have of a pod what is known of it. -/
def Remembers (s : Sightings) (ns name : String) (last : Option (Option String)) : Prop :=
  s.networksOf? (namespacedName ns name) = last

variable {ns name : String} {last : Option (Option String)}

theorem Remembers.observe (h : s.Remembers ns name last) (clean : Clean ns) {pod : Pod}
    (named : pod.Named) : (s.observe pod).2.Remembers ns name (Watch.sight ns name last pod) := by
  have at_iff : pod.isAt ns name = true ↔ pod.key? = some (namespacedName ns name) :=
    Watch.isAt_iff_key named clean
  unfold Remembers at *
  obtain ⟨pod_ns, pod_name, has_ns, has_name, -⟩ := named
  simp only [Pod.key?, has_ns, has_name, Option.some.injEq] at at_iff
  simp only [Sightings.observe, Pod.key?, has_ns, has_name, networksOf_insert, h, Watch.sight,
    at_iff, eq_comm]

theorem Remembers.observe_all (h : s.Remembers ns name last) (clean : Clean ns) {pods : List Pod}
    (named : ∀ pod ∈ pods, pod.Named) :
    (pods.foldl (fun s pod => (s.observe pod).2) s).Remembers ns name
      (pods.foldl (Watch.sight ns name) last) := by
  induction pods generalizing s last with
  | nil => exact h
  | cons pod pods ih =>
    exact ih (h.observe clean (named pod (by simp))) fun p mem => named p (by simp [mem])

theorem Remembers.forget (h : s.Remembers ns name last) (clean : Clean ns) {pod : Pod}
    (named : pod.Named) :
    (s.forget pod).Remembers ns name (if pod.isAt ns name then none else last) := by
  have at_iff : pod.isAt ns name = true ↔ pod.key? = some (namespacedName ns name) :=
    Watch.isAt_iff_key named clean
  unfold Remembers at *
  obtain ⟨pod_ns, pod_name, has_ns, has_name, -⟩ := named
  simp only [Pod.key?, has_ns, has_name, Option.some.injEq] at at_iff
  simp only [Sightings.forget, Pod.key?, has_ns, has_name, networksOf_erase, h, at_iff, eq_comm]

end Sightings

namespace Watch

variable {r : PodReflector} {event : Event Pod} {ns name : String}
  {last : Option (Option String)}

theorem handle_remembers (h : r.sightings.Remembers ns name last) (clean : Clean ns)
    (regular : Regular event) :
    (r.handle event).2.2.sightings.Remembers ns name (learn ns name last event) := by
  cases event with
  | applied pod => exact h.observe clean (regular pod (by simp [Event.objects]))
  | deleted pod => exact h.forget clean (regular pod (by simp [Event.objects]))
  | restarted pods =>
    have fresh : Sightings.Remembers {} ns name none := rfl
    exact fresh.observe_all clean regular
  | failed reason => exact h

/-- An event that tells of other networks than were remembered gives the pod's key. -/
theorem mem_handle_of_change {a b : Option String} (h : r.sightings.Remembers ns name (some a))
    (clean : Clean ns) (regular : Regular event)
    (told : learn ns name (some a) event = some b) (changed : b ≠ a) :
    namespacedName ns name ∈ (r.handle event).1 := by
  have change : r.sightings.isChange (namespacedName ns name) b = true := by
    unfold Sightings.Remembers at h
    simp [Sightings.isChange, h, Ne.symm changed]
  cases event with
  | applied pod =>
    have named := regular pod (by simp [Event.objects])
    by_cases at_it : pod.isAt ns name
    · have key := (isAt_iff_key named clean).mp at_it
      obtain rfl : pod.networks = b := by simpa [learn, sight, at_it] using told
      simp [PodReflector.handle, Sightings.observe, key, change]
    · simp only [learn, sight, at_it] at told
      exact absurd (Option.some.inj told).symm changed
  | restarted pods =>
    obtain ⟨pod, mem, at_it, rfl⟩ := exists_of_sights told
    have key := (isAt_iff_key (regular pod mem) clean).mp at_it
    simp only [PodReflector.handle, Sightings.restart, List.mem_filterMap]
    exact ⟨pod, mem, by simp [Sightings.changed?, key, change]⟩
  | deleted pod =>
    simp only [learn] at told
    split at told
    · cases told
    · exact absurd (Option.some.inj told).symm changed
  | failed reason => exact absurd (Option.some.inj told).symm changed

/-- The cache shows of a pod what is known of it. -/
def Shows (cache : Cache Pod) (ns name : String) (last : Option (Option String)) : Prop :=
  (cache.find? ns name).map Pod.networks = last

variable {cache : Cache Pod} {pod : Pod}

theorem isAt_iff_reference (named : pod.Named) :
    pod.isAt ns name = true ↔ Object.reference pod = ⟨some ns, name⟩ := by
  obtain ⟨pod_ns, pod_name, has_ns, has_name, -⟩ := named
  simp [Pod.isAt, Object.reference, has_ns, has_name]

theorem find?_erase : (cache.erase pod).find? ns name =
    if Object.reference pod = ⟨some ns, name⟩ then none else cache.find? ns name := by
  simp only [Cache.find?, Cache.erase, List.find?_filter]
  split
  · rename_i same
    rw [List.find?_eq_none]
    intro other _
    simp [same]
  · rename_i apart
    congr 1
    funext other
    by_cases asked : Object.reference other = ⟨some ns, name⟩
    · simp [asked, Ne.symm apart]
    · simp [asked]

theorem find?_insert : (cache.insert pod).find? ns name =
    if Object.reference pod = ⟨some ns, name⟩ then some pod else cache.find? ns name := by
  have erased := @find?_erase ns name cache pod
  simp only [Cache.find?] at erased
  simp only [Cache.find?, Cache.insert, List.find?_append, erased]
  split
  · rename_i same
    simp [same]
  · rename_i apart
    simp [apart]

theorem Shows.insert (h : Shows cache ns name last) (named : pod.Named) :
    Shows (cache.insert pod) ns name (sight ns name last pod) := by
  unfold Shows at *
  simp only [find?_insert, ← isAt_iff_reference named, sight, ← h]
  split <;> rfl

theorem Shows.insert_all (h : Shows cache ns name last) {pods : List Pod}
    (named : ∀ pod ∈ pods, pod.Named) :
    Shows (pods.foldl Cache.insert cache) ns name (pods.foldl (sight ns name) last) := by
  induction pods generalizing cache last with
  | nil => exact h
  | cons pod pods ih =>
    exact ih (h.insert (named pod (by simp))) fun p mem => named p (by simp [mem])

theorem Shows.erase (h : Shows cache ns name last) (named : pod.Named) :
    Shows (cache.erase pod) ns name (if pod.isAt ns name then none else last) := by
  unfold Shows at *
  simp only [find?_erase, ← isAt_iff_reference named, ← h]
  split <;> rfl

theorem Shows.handle (h : Shows cache ns name last) (regular : Regular event) :
    Shows (cache.handle event) ns name (learn ns name last event) := by
  cases event with
  | applied pod => exact h.insert (regular pod (by simp [Event.objects]))
  | deleted pod => exact h.erase (regular pod (by simp [Event.objects]))
  | restarted pods =>
    have empty : Shows {} ns name none := rfl
    exact empty.insert_all regular
  | failed reason => exact h

end Watch

end Hotplug
