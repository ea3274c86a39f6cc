import Hotplug.Proofs.Watch.Known
/-!
A relist as a replay: it leaves and reports what forgetting the pods that are gone and observing
the listed ones one by one would. After any events the sightings hold just what was seen last.
Pods are told apart by their keys only.
-/
namespace Hotplug.Sightings

inductive Event where
  | observe (pod : Pod)
  | forget (pod : Pod)
  | restart (pods : List Pod)
  deriving DecidableEq, Repr

def after (s : Sightings) : Event → Sightings
  | .observe pod => (s.observe pod).2
  | .forget pod => s.forget pod
  | .restart pods => (s.restart pods).2

def ofEvents (events : List Event) : Sightings := events.foldl after {}

theorem ofEvents_concat (events : List Event) (event : Event) :
    ofEvents (events ++ [event]) = (ofEvents events).after event := by
  simp [ofEvents]

def forgetAll (s : Sightings) (pods : List Pod) : Sightings := pods.foldl forget s

def observeAll (s : Sightings) : List Pod → List String × Sightings
  | [] => ([], s)
  | pod :: pods =>
    let (key, s) := s.observe pod
    let (keys, s) := s.observeAll pods
    (key.toList ++ keys, s)

def keysOf (pods : List Pod) : List String := pods.filterMap Pod.key?

/-- The pods that are gone are those that are known and not listed. -/
def Gone (s : Sightings) (listed gone : List Pod) : Prop :=
  ∀ key, key ∈ keysOf gone ↔ key ∈ s.known.map (·.1) ∧ key ∉ keysOf listed

variable {s t : Sightings} {pod : Pod} {pods listed gone : List Pod} {key : String}
  {networks : Option String}

def entry? (pod : Pod) : Option (String × Option String) := pod.key?.map (·, pod.networks)

theorem mem_keysOf : key ∈ keysOf pods ↔ ∃ pod ∈ pods, pod.key? = some key :=
  List.mem_filterMap

theorem observe_known (h : pod.key? = some key) :
    (s.observe pod).2.known = s.known.filter (·.1 != key) ++ [(key, pod.networks)] := by
  simp [observe, h, insert, erase]

theorem observe_keyless (h : pod.key? = none) : s.observe pod = (none, s) := by
  simp [observe, h]

theorem forget_known (s : Sightings) (pod : Pod) :
    (s.forget pod).known = s.known.filter fun m => decide (m.1 ∉ keysOf [pod]) := by
  cases present : pod.key? with
  | none => simp [forget, keysOf, present]
  | some key =>
    simp only [forget, present, erase, keysOf, List.filterMap_cons, List.filterMap_nil,
      List.mem_singleton]
    apply List.filter_congr
    intro m _
    by_cases same : m.1 = key <;> simp [same]

theorem forgetAll_known (s : Sightings) (pods : List Pod) :
    (s.forgetAll pods).known = s.known.filter fun m => decide (m.1 ∉ keysOf pods) := by
  induction pods generalizing s with
  | nil => simp [forgetAll, keysOf]
  | cons pod pods ih =>
    have front : keysOf (pod :: pods) = keysOf [pod] ++ keysOf pods :=
      List.filterMap_append (l := [pod])
    have onward : s.forgetAll (pod :: pods) = (s.forget pod).forgetAll pods := rfl
    rw [onward, ih, forget_known, List.filter_filter, front]
    apply List.filter_congr
    intro m _
    simp [and_comm]

theorem observeAll_known (distinct : (keysOf pods).Nodup) :
    (s.observeAll pods).2.known =
      s.known.filter (fun m => decide (m.1 ∉ keysOf pods)) ++ pods.filterMap entry? := by
  induction pods generalizing s with
  | nil => simp [observeAll, keysOf]
  | cons pod pods ih =>
    cases present : pod.key? with
    | none =>
      have keys : keysOf (pod :: pods) = keysOf pods := by simp [keysOf, present]
      rw [keys] at distinct ⊢
      simp [observeAll, observe_keyless present, ih distinct, entry?, present]
    | some key =>
      have keys : keysOf (pod :: pods) = key :: keysOf pods := by simp [keysOf, present]
      rw [keys] at distinct ⊢
      obtain ⟨fresh, distinct⟩ := List.nodup_cons.mp distinct
      have onward : (s.observeAll (pod :: pods)).2 = ((s.observe pod).2.observeAll pods).2 := rfl
      have kept : s.known.filter (fun m => decide (m.1 ∉ keysOf pods) && m.1 != key) =
          s.known.filter fun m => decide (m.1 ∉ key :: keysOf pods) := by
        apply List.filter_congr
        intro m _
        by_cases same : m.1 = key <;> simp [same]
      rw [onward, ih distinct, observe_known present, List.filter_append, List.filter_filter, kept]
      simp [fresh, entry?, present]

/-- Starting over is observing from the start. -/
theorem restart_known (s : Sightings) (pods : List Pod) :
    (s.restart pods).2 = (observeAll {} pods).2 := by
  have all (t : Sightings) :
      pods.foldl (fun s pod => (s.observe pod).2) t = (t.observeAll pods).2 := by
    induction pods generalizing t with
    | nil => rfl
    | cons pod pods ih => exact ih (t.observe pod).2
  exact all {}

theorem networksOf_observe_of_ne (apart : pod.key? ≠ some key) :
    (s.observe pod).2.networksOf? key = s.networksOf? key := by
  cases present : pod.key? with
  | none => rw [observe_keyless present]
  | some other =>
    have ne : key ≠ other := by
      rintro rfl
      exact apart present
    simp [observe, present, networksOf_insert, ne]

theorem networksOf_forgetAll (kept : key ∉ keysOf gone) :
    (s.forgetAll gone).networksOf? key = s.networksOf? key := by
  induction gone generalizing s with
  | nil => rfl
  | cons pod gone ih =>
    rw [mem_keysOf] at kept
    have apart : pod.key? ≠ some key := fun same => kept ⟨pod, by simp, same⟩
    have later : key ∉ keysOf gone := by
      rw [mem_keysOf]
      rintro ⟨other, mem, same⟩
      exact kept ⟨other, by simp [mem], same⟩
    have once : (s.forget pod).networksOf? key = s.networksOf? key := by
      cases present : pod.key? with
      | none => simp [forget, present]
      | some other =>
        have ne : key ≠ other := by
          rintro rfl
          exact apart present
        simp [forget, present, networksOf_erase, ne]
    exact (ih later).trans once

theorem observeAll_keys (distinct : (keysOf pods).Nodup)
    (same : ∀ key ∈ keysOf pods, t.networksOf? key = s.networksOf? key) :
    (t.observeAll pods).1 = pods.filterMap s.changed? := by
  induction pods generalizing t with
  | nil => rfl
  | cons pod pods ih =>
    have keys : (t.observeAll (pod :: pods)).1 =
        (t.observe pod).1.toList ++ ((t.observe pod).2.observeAll pods).1 := rfl
    rw [keys]
    cases present : pod.key? with
    | none =>
      have rest : keysOf (pod :: pods) = keysOf pods := by simp [keysOf, present]
      rw [rest] at distinct same
      rw [observe_keyless present, ih distinct same]
      simp [changed?, present]
    | some key =>
      have rest : keysOf (pod :: pods) = key :: keysOf pods := by simp [keysOf, present]
      rw [rest] at distinct same
      obtain ⟨fresh, distinct⟩ := List.nodup_cons.mp distinct
      have untouched : ∀ other ∈ keysOf pods,
          (t.observe pod).2.networksOf? other = s.networksOf? other := by
        intro other mem
        have apart : pod.key? ≠ some other := by
          rw [present]
          rintro ⟨⟩
          exact fresh mem
        rw [networksOf_observe_of_ne apart]
        exact same other (List.mem_cons_of_mem _ mem)
      have before : t.isChange key pod.networks = s.isChange key pod.networks := by
        unfold isChange
        rw [same key (List.mem_cons_self ..)]
      rw [ih distinct untouched]
      cases change : s.isChange key pod.networks <;>
        simp [observe, changed?, present, before, change, Option.filter]

theorem restart_eq_replay (distinct : (keysOf pods).Nodup) (absent : s.Gone pods gone) :
    s.restart pods = (s.forgetAll gone).observeAll pods := by
  apply Prod.ext
  · -- the listed pods are none of those that are gone
    symm
    apply observeAll_keys distinct
    intro key listed
    apply networksOf_forgetAll
    intro mem
    exact ((absent key).mp mem).2 listed
  · rw [restart_known]
    apply Sightings.mk.injEq .. |>.mpr
    rw [observeAll_known distinct, observeAll_known distinct, forgetAll_known,
      List.filter_filter]
    -- what was known is listed or gone, so that nothing of it is left
    congr 1
    symm
    rw [List.filter_nil, List.filter_eq_nil_iff]
    intro m mem
    have known : m.1 ∈ s.known.map (·.1) := List.mem_map_of_mem mem
    simp only [Bool.and_eq_true, decide_eq_true_eq, not_and, not_not]
    intro unlisted
    exact (absent m.1).mpr ⟨known, unlisted⟩

def Event.Shows (event : Event) (key : String) (networks : Option String) : Prop :=
  match event with
  | .observe pod => pod.key? = some key ∧ pod.networks = networks
  | .forget _ => False
  | .restart pods => ∃ before pod later, pods = before ++ pod :: later ∧
      pod.key? = some key ∧ pod.networks = networks ∧ key ∉ keysOf later

/-- The event outdates what was seen of that key before: it is about that key, or a relist. -/
def Event.Outdates (event : Event) (key : String) : Prop :=
  match event with
  | .observe pod | .forget pod => pod.key? = some key
  | .restart _ => True

/-- Among the events is a last one that shows the key, and it was not outdated since. -/
def SeenLast (events : List Event) (key : String) (networks : Option String) : Prop :=
  ∃ earlier event later, events = earlier ++ event :: later ∧ event.Shows key networks ∧
    ∀ e ∈ later, ¬ e.Outdates key

def Single (s : Sightings) : Prop := (s.known.map (·.1)).Nodup

theorem networksOf_observe (h : pod.key? = some key) :
    (s.observe pod).2.networksOf? key = some pod.networks := by
  simp [observe, h, networksOf_insert]

theorem keysOf_concat (pods : List Pod) (pod : Pod) :
    keysOf (pods ++ [pod]) = keysOf pods ++ pod.key?.toList := by
  cases present : pod.key? <;> simp [keysOf, present]

theorem networksOf_restart :
    (s.restart pods).2.networksOf? key = some networks ↔
      (Event.restart pods).Shows key networks := by
  simp only [restart, Event.Shows]
  -- on the listing from its end, where the last pod of the key stands
  induction pods using List.reverseRecOn with
  | nil => simp [networksOf?]
  | append_singleton pods pod ih =>
    rw [List.foldl_append, List.foldl_cons, List.foldl_nil]
    by_cases same : pod.key? = some key
    · rw [networksOf_observe same, Option.some_inj]
      constructor
      · intro told
        exact ⟨pods, pod, [], rfl, same, told, by simp [keysOf]⟩
      · intro shown
        obtain ⟨before, other, later, split, -, told, unseen⟩ := shown
        cases later using List.reverseRecOn with
        | nil =>
          obtain ⟨-, last⟩ := List.append_inj' split rfl
          obtain rfl := List.head_eq_of_cons_eq last
          exact told
        | append_singleton later final _ =>
          have last : pods ++ [pod] = (before ++ other :: later) ++ [final] := by
            simpa using split
          obtain ⟨-, same_pod⟩ := List.append_inj' last rfl
          obtain rfl := List.head_eq_of_cons_eq same_pod
          rw [keysOf_concat, same] at unseen
          simp at unseen
    · rw [networksOf_observe_of_ne same, ih]
      constructor
      · intro shown
        obtain ⟨before, other, later, rfl, at_it, told, unseen⟩ := shown
        refine ⟨before, other, later ++ [pod], by simp, at_it, told, ?_⟩
        rw [keysOf_concat, List.mem_append, not_or]
        exact ⟨unseen, by simpa using same⟩
      · intro shown
        obtain ⟨before, other, later, split, at_it, told, unseen⟩ := shown
        cases later using List.reverseRecOn with
        | nil =>
          obtain ⟨-, last⟩ := List.append_inj' split rfl
          obtain rfl := List.head_eq_of_cons_eq last
          exact absurd at_it same
        | append_singleton later final _ =>
          have last : pods ++ [pod] = (before ++ other :: later) ++ [final] := by
            simpa using split
          obtain ⟨front, -⟩ := List.append_inj' last rfl
          rw [keysOf_concat, List.mem_append, not_or] at unseen
          exact ⟨before, other, later, front, at_it, told, unseen.1⟩

/-- What one event leaves of a key: what it shows, or else what was known and is not outdated. -/
theorem networksOf_after (s : Sightings) (event : Event) :
    (s.after event).networksOf? key = some networks ↔
      event.Shows key networks ∨
        (¬ event.Outdates key ∧ s.networksOf? key = some networks) := by
  cases event with
  | observe pod =>
    by_cases same : pod.key? = some key
    · simp [after, Event.Shows, Event.Outdates, networksOf_observe same, same]
    · simp [after, Event.Shows, Event.Outdates, networksOf_observe_of_ne same, same]
  | forget pod =>
    cases present : pod.key? with
    | none => simp [after, forget, present, Event.Shows, Event.Outdates]
    | some other =>
      by_cases same : key = other
      · simp [after, forget, present, networksOf_erase, Event.Shows, Event.Outdates, same]
      · simp [after, forget, present, networksOf_erase, Event.Shows, Event.Outdates, same,
          Ne.symm same]
  | restart pods =>
    have shown : (s.restart pods).2.networksOf? key = some networks ↔ _ := networksOf_restart
    simpa [after, Event.Outdates] using shown

theorem networksOf_ofEvents (events : List Event) :
    (ofEvents events).networksOf? key = some networks ↔ SeenLast events key networks := by
  induction events using List.reverseRecOn with
  | nil => simp [ofEvents, networksOf?, SeenLast]
  | append_singleton events event ih =>
    rw [ofEvents_concat, networksOf_after, ih]
    constructor
    · intro known
      rcases known with shown | ⟨kept, earlier, last, later, rfl, shown, quiet⟩
      · exact ⟨events, event, [], rfl, shown, by simp⟩
      · refine ⟨earlier, last, later ++ [event], by simp, shown, ?_⟩
        intro e mem
        rcases List.mem_append.mp mem with old | new
        · exact quiet e old
        · rwa [List.mem_singleton.mp new]
    · intro seen
      obtain ⟨earlier, last, later, split, shown, quiet⟩ := seen
      cases later using List.reverseRecOn with
      | nil =>
        obtain ⟨-, same⟩ := List.append_inj' split rfl
        obtain rfl := List.head_eq_of_cons_eq same
        exact .inl shown
      | append_singleton later final _ =>
        have ends : events ++ [event] = (earlier ++ last :: later) ++ [final] := by
          simpa using split
        obtain ⟨front, same⟩ := List.append_inj' ends rfl
        obtain rfl := List.head_eq_of_cons_eq same
        exact .inr ⟨quiet event (by simp), earlier, last, later, front, shown,
          fun e mem => quiet e (by simp [mem])⟩

theorem Single.filter (h : s.Single) (p : String × Option String → Bool) :
    Single ⟨s.known.filter p⟩ :=
  List.Nodup.sublist (List.filter_sublist.map _) h

theorem Single.observe (h : s.Single) (pod : Pod) : (s.observe pod).2.Single := by
  cases present : pod.key? with
  | none => rwa [observe_keyless present]
  | some key =>
    unfold Single
    rw [observe_known present, List.map_append, List.nodup_append]
    refine ⟨h.filter _, by simp, ?_⟩
    intro other kept new added
    obtain ⟨m, mem, rfl⟩ := List.mem_map.mp kept
    obtain rfl : new = key := by simpa using added
    simpa using (List.mem_filter.mp mem).2

theorem Single.after (h : s.Single) (event : Event) : (s.after event).Single := by
  cases event with
  | observe pod => exact h.observe pod
  | forget pod =>
    have forgotten := h.filter fun m => decide (m.1 ∉ keysOf [pod])
    rwa [← forget_known] at forgotten
  | restart pods =>
    have all (t : Sightings) (single : t.Single) :
        (pods.foldl (fun s pod => (s.observe pod).2) t).Single := by
      induction pods generalizing t with
      | nil => exact single
      | cons pod pods ih => exact ih _ (single.observe pod)
    exact all {} List.nodup_nil

theorem single_ofEvents (events : List Event) : (ofEvents events).Single := by
  induction events using List.reverseRecOn with
  | nil => exact List.nodup_nil
  | append_singleton events event ih =>
    rw [ofEvents_concat]
    exact ih.after event

theorem exists_pod_of_known {events : List Event}
    (known : key ∈ (ofEvents events).known.map (·.1)) : ∃ pod : Pod, pod.key? = some key := by
  obtain ⟨m, mem, rfl⟩ := List.mem_map.mp known
  have present : ((ofEvents events).networksOf? m.1).isSome = true :=
    List.lookup_isSome_iff.mpr ⟨m, mem, beq_self_eq_true m.1⟩
  obtain ⟨networks, seen⟩ := Option.isSome_iff_exists.mp present
  obtain ⟨-, event, -, -, shown, -⟩ := (networksOf_ofEvents events).mp seen
  cases event with
  | observe pod => exact ⟨pod, shown.1⟩
  | forget pod => cases shown
  | restart pods =>
    obtain ⟨-, pod, -, -, at_it, -⟩ := shown
    exact ⟨pod, at_it⟩

theorem exists_pods_of_keys {keys : List String}
    (each : ∀ key ∈ keys, ∃ pod : Pod, pod.key? = some key) : ∃ pods, keysOf pods = keys := by
  induction keys with
  | nil => exact ⟨[], rfl⟩
  | cons key keys ih =>
    obtain ⟨pod, has⟩ := each key (List.mem_cons_self ..)
    obtain ⟨pods, rest⟩ := ih fun k mem => each k (List.mem_cons_of_mem _ mem)
    exact ⟨pod :: pods, by simpa [keysOf, has] using rest⟩

theorem exists_gone (events : List Event) (listed : List Pod) :
    ∃ gone, (ofEvents events).Gone listed gone := by
  let missing := ((ofEvents events).known.map (·.1)).filter fun key =>
    decide (key ∉ keysOf listed)
  have each : ∀ key ∈ missing, ∃ pod : Pod, pod.key? = some key := by
    intro key mem
    exact exists_pod_of_known (List.mem_filter.mp mem).1
  obtain ⟨gone, keys⟩ := exists_pods_of_keys each
  refine ⟨gone, ?_⟩
  intro key
  rw [keys, List.mem_filter, decide_eq_true_eq]

/-- After any events a relist of pods with distinct keys reports and leaves what forgetting the
known pods that are not listed and observing the listed ones in their order would; and what is
known is, once for each key, what was seen of it last and not outdated since. -/
theorem relist_replays (events : List Event) :
    (∀ listed, (keysOf listed).Nodup →
      (∃ gone, (ofEvents events).Gone listed gone) ∧
      ∀ gone, (ofEvents events).Gone listed gone →
        (ofEvents events).restart listed =
          ((ofEvents events).forgetAll gone).observeAll listed) ∧
    (ofEvents events).Single ∧
    ∀ key networks, (ofEvents events).networksOf? key = some networks ↔
      SeenLast events key networks := by
  refine ⟨?relist, single_ofEvents events, fun _ _ => networksOf_ofEvents events⟩
  intro listed distinct
  exact ⟨exists_gone events listed, fun gone absent => restart_eq_replay distinct absent⟩

def samplePod (name : String) (networks : Option String) : Pod :=
  { ns := some "ns1", name := some name, networks := networks }

def sampleEvents : List Event := [
  .restart [samplePod "tpod" (some "net1"), samplePod "lost" none],
  .observe (samplePod "tpod" (some "")),
  .observe (samplePod "other" (some "net1"))]

def sampleListed : List Pod := [
  samplePod "tpod" none, { ns := some "ns1" }, samplePod "other" (some "net1"),
  samplePod "new" (some "net1")]

def sampleGone : List Pod := [samplePod "lost" (some "net2")]

theorem sample_relist_replays :
    (keysOf sampleListed).Nodup ∧ (ofEvents sampleEvents).Gone sampleListed sampleGone ∧
    (ofEvents sampleEvents).restart sampleListed =
      ((ofEvents sampleEvents).forgetAll sampleGone).observeAll sampleListed ∧
    ((ofEvents sampleEvents).restart sampleListed).1 = ["ns1/tpod"] := by
  have distinct : (keysOf sampleListed).Nodup := by decide
  have absent : (ofEvents sampleEvents).Gone sampleListed sampleGone := by
    have known : (ofEvents sampleEvents).known.map (·.1) = ["ns1/lost", "ns1/tpod", "ns1/other"] := by
      decide
    have listed : keysOf sampleListed = ["ns1/tpod", "ns1/other", "ns1/new"] := by decide
    have gone : keysOf sampleGone = ["ns1/lost"] := by decide
    intro key
    rw [known, listed, gone]
    constructor
    · intro lost
      obtain rfl := List.mem_singleton.mp lost
      decide
    · intro missing
      obtain ⟨mem, unlisted⟩ := missing
      simp only [List.mem_cons, List.not_mem_nil, or_false, not_or] at mem unlisted
      simpa [unlisted] using mem
  exact ⟨distinct, absent, ((relist_replays sampleEvents).1 _ distinct).2 _ absent, by decide⟩

end Hotplug.Sightings
