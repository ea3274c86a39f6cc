import Hotplug.Proofs.Controller.Loop
import Hotplug.Proofs.Watch.Known
/-!
The controller and the pod watch that feeds it. The watch hands on one event at a time: the
cache shows it, then the sightings note it, then the keys that it gives are queued one by one,
and in between anything may befall the controller. A pass may look its pod up at any moment. How
long any of this takes is not covered, nor what a pass does with the pod it finds.
-/
namespace Hotplug

open Watch

structure Lookout where
  loop : Loop
  reflector : PodReflector := {}
  handed : Option (Watch.Event Pod) := none
  pending : List String := []

namespace Lookout

inductive Move where
  | store (event : Watch.Event Pod)
  | note
  | queue
  | befall (event : Loop.Event)
  | lookUp

inductive Record where
  | stored (event : Watch.Event Pod)
  | noted (event : Watch.Event Pod)
  | queued (key : String)
  | began (key : String)
  | read (ns name : String) (pod : Option Pod)

def shown (s : Lookout) : Cache Pod := s.handed.elim s.reflector.cache s.reflector.cache.handle

def step (s : Lookout) : Move → Lookout × List Record
  | .store event =>
    if s.handed.isNone && s.pending.isEmpty then
      ({ s with handed := some event }, [.stored event])
    else (s, [])
  | .note =>
    match s.handed with
    | some event =>
      let (pending, _, reflector) := s.reflector.handle event
      ({ s with reflector, handed := none, pending }, [.noted event])
    | none => (s, [])
  | .queue =>
    match s.pending with
    | key :: pending =>
      ({ s with loop := s.loop.step (.input (.enqueue key)), pending }, [.queued key])
    | [] => (s, [])
  | .befall event =>
    let loop := s.loop.step event
    ({ s with loop }, (loop.started.drop s.loop.started.length).map .began)
  | .lookUp =>
    match s.loop.controller.worker with
    | .busy key =>
      match Pass.reconcile key with
      | .step (.findPod ns name) _ => (s, [.read ns name (s.shown.find? ns name)])
      | _ => (s, [])
    | _ => (s, [])

def start (maxRetries : Nat) (backoff : Backoff) : Lookout :=
  { loop := Loop.start maxRetries backoff }

def play (maxRetries : Nat) (backoff : Backoff) (moves : List Move) : Lookout × List Record :=
  moves.foldl (fun (s, log) move => ((s.step move).1, log ++ (s.step move).2))
    (start maxRetries backoff, [])

namespace Record

@[simp]
def storedEvent? : Record → Option (Watch.Event Pod)
  | .stored event => some event
  | .noted _ | .queued _ | .began _ | .read _ _ _ => none

@[simp]
def notedEvent? : Record → Option (Watch.Event Pod)
  | .noted event => some event
  | .stored _ | .queued _ | .began _ | .read _ _ _ => none

end Record

def stored (log : List Record) : List (Watch.Event Pod) := log.filterMap Record.storedEvent?

def noted (log : List Record) : List (Watch.Event Pod) := log.filterMap Record.notedEvent?

def Edits (events : List (Watch.Event Pod)) (event : Watch.Event Pod) (ns name : String) : Prop :=
  ∃ a b, known events ns name = some a ∧ known (events ++ [event]) ns name = some b ∧ b ≠ a

/-- What is noted was the last to be stored; what is read is what is known from what is stored. -/
def Record.Fits (log : List Record) : Record → Prop
  | .noted event => Lookout.stored log = Lookout.noted log ++ [event]
  | .read ns name pod => pod.map Pod.networks = known (Lookout.stored log) ns name
  | .stored _ | .queued _ | .began _ => True

/-- The key of an edited pod was queued before the next event was noted, or is pending. -/
def Passed (pending : List String) (log : List Record) : Prop :=
  ∀ before event after ns name, log = before ++ .noted event :: after → Clean ns →
    Edits (noted before) event ns name →
    (∃ between rest, after = between ++ .queued (namespacedName ns name) :: rest ∧
        noted between = []) ∨
      noted after = [] ∧ namespacedName ns name ∈ pending

/-- A queued key is dirty or a pass over it began since. -/
def Served (dirty : List String) (log : List Record) : Prop :=
  ∀ before key after, log = before ++ .queued key :: after → key ∈ dirty ∨ .began key ∈ after

section
variable {log new before after : List Record} {record : Record} {key : String}
  {pending dirty dirty' : List String} {event : Watch.Event Pod}

@[simp]
theorem stored_append : stored (log ++ new) = stored log ++ stored new := List.filterMap_append

@[simp]
theorem noted_append : noted (log ++ new) = noted log ++ noted new := List.filterMap_append

@[simp]
theorem stored_singleton : stored [record] = record.storedEvent?.toList := by
  cases record <;> rfl

@[simp]
theorem noted_singleton : noted [record] = record.notedEvent?.toList := by
  cases record <;> rfl

@[simp]
theorem stored_begun (keys : List String) : stored (keys.map .began) = [] := by
  simp [stored]

@[simp]
theorem noted_begun (keys : List String) : noted (keys.map .began) = [] := by
  simp [noted]

theorem split_append (h : log ++ new = before ++ record :: after) :
    (∃ later, log = before ++ record :: later ∧ after = later ++ new) ∨
      ∃ earlier, before = log ++ earlier ∧ new = earlier ++ record :: after := by
  rcases List.append_eq_append_iff.mp h with ⟨earlier, before_eq, new_eq⟩ | ⟨later, log_eq, eq⟩
  · exact .inr ⟨earlier, before_eq, new_eq⟩
  · cases later with
    | nil => exact .inr ⟨[], by simpa using log_eq.symm, by simpa using eq.symm⟩
    | cons first later =>
      obtain ⟨rfl, rfl⟩ := List.cons.inj eq
      exact .inl ⟨later, log_eq, rfl⟩

theorem split_concat {last : Record} (h : log ++ [last] = before ++ record :: after) :
    (∃ later, log = before ++ record :: later ∧ after = later ++ [last]) ∨
      before = log ∧ record = last ∧ after = [] := by
  rcases split_append h with earlier | ⟨earlier, rfl, new⟩
  · exact .inl earlier
  · right
    cases earlier with
    | nil => simpa [eq_comm] using new
    | cons first rest => simp at new

theorem noted_ne_nil (mem : .noted event ∈ new) : noted new ≠ [] := by
  intro none
  have kept : event ∈ noted new := List.mem_filterMap.mpr ⟨_, mem, rfl⟩
  simp [none] at kept

theorem Passed.append (h : Passed pending log) (quiet : noted new = []) :
    Passed pending (log ++ new) := by
  intro before event after ns name split clean edits
  rcases split_append split with ⟨later, log_eq, rfl⟩ | ⟨earlier, -, new_eq⟩
  · rcases h before event later ns name log_eq clean edits with ⟨between, rest, rfl, none⟩ | waits
    · exact .inl ⟨between, rest ++ new, by simp, none⟩
    · exact .inr ⟨by rw [noted_append, waits.1, quiet, List.append_nil], waits.2⟩
  · have mem : .noted event ∈ new := by simp [new_eq]
    exact absurd quiet (noted_ne_nil mem)

theorem Passed.queued (h : Passed (key :: pending) log) :
    Passed pending (log ++ [.queued key]) := by
  intro before event after ns name split clean edits
  rcases split_concat split with ⟨later, log_eq, rfl⟩ | ⟨-, other, -⟩
  · rcases h before event later ns name log_eq clean edits with
      ⟨between, rest, rfl, none⟩ | ⟨none, waits⟩
    · exact .inl ⟨between, rest ++ [.queued key], by simp, none⟩
    · rcases List.mem_cons.mp waits with rfl | waits
      · exact .inl ⟨later, [], rfl, none⟩
      · exact .inr ⟨by rw [noted_append, none]; rfl, waits⟩
  · cases other

theorem Passed.noted (h : Passed [] log)
    (given : ∀ ns name, Clean ns → Edits (noted log) event ns name →
      namespacedName ns name ∈ pending) :
    Passed pending (log ++ [.noted event]) := by
  intro before earlier after ns name split clean edits
  rcases split_concat split with ⟨later, log_eq, rfl⟩ | ⟨rfl, same, rfl⟩
  · rcases h before earlier later ns name log_eq clean edits with
      ⟨between, rest, rfl, none⟩ | ⟨-, waits⟩
    · exact .inl ⟨between, rest ++ [.noted event], by simp, none⟩
    · cases waits
  · obtain rfl := Record.noted.inj same
    exact .inr ⟨rfl, given ns name clean edits⟩

theorem Served.append (h : Served dirty log) (quiet : ∀ key, .queued key ∉ new)
    (kept : ∀ k ∈ dirty, k ∈ dirty' ∨ .began k ∈ new) : Served dirty' (log ++ new) := by
  intro before key after split
  rcases split_append split with ⟨later, log_eq, rfl⟩ | ⟨earlier, -, new_eq⟩
  · rcases h before key later log_eq with waits | began
    · exact (kept key waits).imp_right fun mem => List.mem_append_right later mem
    · exact .inr (List.mem_append_left new began)
  · exact absurd (by simp [new_eq]) (quiet key)

theorem Served.queued (h : Served dirty log) (kept : ∀ k ∈ dirty, k ∈ dirty')
    (waits : key ∈ dirty') : Served dirty' (log ++ [.queued key]) := by
  intro before k after split
  rcases split_concat split with ⟨later, log_eq, rfl⟩ | ⟨-, same, rfl⟩
  · exact (h before k later log_eq).imp (kept k) fun began => List.mem_append_left _ began
  · obtain rfl := Record.queued.inj same
    exact .inl waits

end

structure Faithful (s : Lookout) (log : List Record) : Prop where
  regular : ∀ event ∈ s.handed, Regular event
  stored_eq : stored log = noted log ++ s.handed.toList
  remembers : ∀ ns name, Clean ns →
    s.reflector.sightings.Remembers ns name (known (noted log) ns name)
  shows : ∀ ns name, Shows s.reflector.cache ns name (known (noted log) ns name)
  free : s.handed.isSome → s.pending = []
  fits : ∀ before record after, log = before ++ record :: after → record.Fits before
  passed : Passed s.pending log
  served : s.loop.controller.queue.isShutDown = false →
    Served s.loop.controller.queue.dirty log

variable {s : Lookout} {log : List Record} {event : Watch.Event Pod}

theorem faithful_start (maxRetries : Nat) (backoff : Backoff) :
    Faithful (start maxRetries backoff) [] where
  regular := by simp [start]
  stored_eq := rfl
  remembers := fun _ _ _ => rfl
  shows := fun _ _ => rfl
  free := fun _ => rfl
  fits := by simp
  passed := by simp [Passed]
  served := by simp [Served]

theorem fits_concat {record : Record}
    (h : ∀ before r after, log = before ++ r :: after → r.Fits before) (fits : record.Fits log) :
    ∀ before r after, log ++ [record] = before ++ r :: after → r.Fits before := by
  intro before r after split
  rcases split_concat split with ⟨later, log_eq, -⟩ | ⟨rfl, rfl, -⟩
  · exact h before r later log_eq
  · exact fits

theorem Faithful.shown (h : Faithful s log) (ns name : String) :
    Shows s.shown ns name (known (stored log) ns name) := by
  have shows := h.shows ns name
  have stored_eq := h.stored_eq
  unfold Lookout.shown
  cases handed : s.handed with
  | none =>
    rw [stored_eq, handed]
    simpa using shows
  | some event =>
    rw [stored_eq, handed, Option.toList_some, known_concat]
    exact shows.handle (h.regular event handed)

theorem Faithful.store (h : Faithful s log) (regular : Regular event) :
    Faithful (s.step (.store event)).1 (log ++ (s.step (.store event)).2) := by
  by_cases free : s.handed = none ∧ s.pending = []
  · simp only [step, free, Option.isNone_none, List.isEmpty_nil, Bool.and_self, if_true]
    exact {
      regular := by simpa using regular
      stored_eq := by simp [h.stored_eq, free.1]
      remembers := by simpa using h.remembers
      shows := by simpa using h.shows
      free := fun _ => rfl
      fits := fits_concat h.fits trivial
      passed := (free.2 ▸ h.passed).append (by simp)
      served := fun opened => (h.served opened).append (by simp) fun _ dirty => .inl dirty }
  · simpa [step, free] using h

theorem Faithful.note (h : Faithful s log) :
    Faithful (s.step .note).1 (log ++ (s.step .note).2) := by
  cases handed : s.handed with
  | none => simpa [step, handed] using h
  | some event =>
    have regular := h.regular event handed
    have pending : s.pending = [] := h.free (by simp [handed])
    have noted_eq : noted (log ++ [.noted event]) = noted log ++ [event] := by simp
    have stored_eq : stored log = noted log ++ [event] := by rw [h.stored_eq, handed]; rfl
    simp only [step, handed]
    exact {
      regular := by simp
      stored_eq := by simp [stored_eq]
      remembers := by
        intro ns name clean
        rw [noted_eq, known_concat]
        exact handle_remembers (h.remembers ns name clean) clean regular
      shows := by
        intro ns name
        rw [noted_eq, known_concat]
        have shows := (h.shows ns name).handle regular
        cases event <;> exact shows
      free := by simp
      fits := fits_concat h.fits stored_eq
      passed := by
        refine (pending ▸ h.passed).noted ?_
        rintro ns name clean ⟨a, b, was, told, changed⟩
        have remembers := h.remembers ns name clean
        rw [known_concat, was] at told
        rw [was] at remembers
        exact mem_handle_of_change remembers clean regular told changed
      served := fun opened => (h.served opened).append (by simp) fun _ dirty => .inl dirty }

theorem Faithful.queue (h : Faithful s log) :
    Faithful (s.step .queue).1 (log ++ (s.step .queue).2) := by
  cases pending : s.pending with
  | nil => simpa [step, pending] using h
  | cons key more =>
    simp only [step, pending]
    exact {
      regular := h.regular
      stored_eq := by simp [h.stored_eq]
      remembers := by simpa using h.remembers
      shows := by simpa using h.shows
      free := by
        intro handed
        simp [h.free handed] at pending
      fits := fits_concat h.fits trivial
      passed := (pending ▸ h.passed).queued
      served := by
        simp only [Loop.step, Loop.take, Controller.step, WorkQueue.add_isShutDown]
        intro opened
        have awaited : (s.loop.controller.queue.add key).isAwaited key = true := by
          simp [WorkQueue.isAwaited_add, opened]
        exact (h.served opened).queued (fun k dirty => WorkQueue.mem_add_dirty dirty)
          (WorkQueue.isAwaited_iff.mp awaited) }

theorem Faithful.befall (h : Faithful s log) (event : Loop.Event) :
    Faithful (s.step (.befall event)).1 (log ++ (s.step (.befall event)).2) := by
  have turns := Loop.turns_step s.loop event
  obtain ⟨new, started, kept⟩ := turns.waiting
  simp only [step, started, List.drop_left]
  exact {
    regular := h.regular
    stored_eq := by simp [h.stored_eq]
    remembers := by simpa using h.remembers
    shows := by simpa using h.shows
    free := h.free
    fits := by
      intro before record after split
      rcases split_append split with ⟨later, log_eq, -⟩ | ⟨earlier, -, new_eq⟩
      · exact h.fits before record later log_eq
      · have mem : record ∈ new.map .began := by simp [new_eq]
        obtain ⟨key, -, rfl⟩ := List.mem_map.mp mem
        trivial
    passed := h.passed.append (noted_begun new)
    served := fun opened => (h.served (turns.isOpen opened)).append (by simp)
      fun k dirty => (kept k dirty).imp_right fun mem => List.mem_map_of_mem mem }

theorem Faithful.lookUp (h : Faithful s log) :
    Faithful (s.step .lookUp).1 (log ++ (s.step .lookUp).2) := by
  simp only [step]
  split
  · split
    · rename_i ns name next asks
      exact {
        regular := h.regular
        stored_eq := by simp [h.stored_eq]
        remembers := by simpa using h.remembers
        shows := by simpa using h.shows
        free := h.free
        fits := fits_concat h.fits (h.shown ns name)
        passed := h.passed.append (by simp)
        served := fun opened => (h.served opened).append (by simp) fun _ dirty => .inl dirty }
    · simpa using h
  · simpa using h

theorem Faithful.step (h : Faithful s log) (move : Move)
    (regular : ∀ event, move = .store event → Regular event) :
    Faithful (s.step move).1 (log ++ (s.step move).2) := by
  cases move with
  | store event => exact h.store (regular event rfl)
  | note => exact h.note
  | queue => exact h.queue
  | befall event => exact h.befall event
  | lookUp => exact h.lookUp

theorem faithful_play (maxRetries : Nat) (backoff : Backoff) {moves : List Move}
    (regular : ∀ event, .store event ∈ moves → Regular event) :
    Faithful (play maxRetries backoff moves).1 (play maxRetries backoff moves).2 := by
  -- from the end, since the log grows there
  induction moves using List.reverseRecOn with
  | nil => exact faithful_start maxRetries backoff
  | append_singleton moves move ih =>
    have earlier := ih fun event mem => regular event (List.mem_append_left _ mem)
    simp only [play, List.foldl_append, List.foldl_cons, List.foldl_nil] at earlier ⊢
    exact earlier.step move fun event same => regular event (by simp [same])

/-- A pass over a pod's key begins by looking up that pod. -/
theorem reconcile_looks_up {ns name : String} (ns_clean : Clean ns) (name_clean : Clean name) :
    ∃ next, Pass.reconcile (namespacedName ns name) = .step (.findPod ns name) next := by
  simp only [Pass.reconcile, splitNamespacedName_joined ns_clean name_clean]
  exact ⟨_, rfl⟩

/-- Unless the queue was shut down, and whatever befalls the watch and the controller: once an
event that gives a known pod other networks has been dealt with, the pod's key was queued for
it, and since then waits or had a pass over it begin. A pass over that key looks up that very
pod, and all that is read shows the networks that the events stored so far, this one among them,
have the pod with. -/
theorem no_edit_lost (maxRetries : Nat) (backoff : Backoff) {moves : List Move}
    (regular : ∀ event, .store event ∈ moves → Regular event)
    (opened : (play maxRetries backoff moves).1.loop.controller.queue.isShutDown = false)
    {before after : List Record} {ns name : String}
    (log : (play maxRetries backoff moves).2 = before ++ .noted event :: after)
    (dealt : noted after ≠ [] ∨ (play maxRetries backoff moves).1.pending = [])
    (ns_clean : Clean ns) (name_clean : Clean name) (edits : Edits (noted before) event ns name) :
    (∃ between rest, after = between ++ .queued (namespacedName ns name) :: rest ∧
        noted between = [] ∧
        (namespacedName ns name ∈ (play maxRetries backoff moves).1.loop.controller.queue.dirty ∨
          .began (namespacedName ns name) ∈ rest)) ∧
      (∃ next, Pass.reconcile (namespacedName ns name) = .step (.findPod ns name) next) ∧
      stored before = noted before ++ [event] ∧
      ∀ earlier pod later, after = earlier ++ .read ns name pod :: later →
        pod.map Pod.networks =
          known (noted before ++ [event] ++ stored earlier) ns name := by
  have h := faithful_play maxRetries backoff regular
  have stored_eq : stored before = noted before ++ [event] := h.fits before _ after log
  refine ⟨?_, reconcile_looks_up ns_clean name_clean, stored_eq, ?_⟩
  · obtain ⟨between, rest, after_eq, none⟩ : ∃ between rest,
        after = between ++ .queued (namespacedName ns name) :: rest ∧ noted between = [] := by
      rcases h.passed before event after ns name log ns_clean edits with queued | ⟨none, waits⟩
      · exact queued
      · rcases dealt with later | empty
        · exact absurd none later
        · simp [empty] at waits
    refine ⟨between, rest, after_eq, none, ?_⟩
    have split : (play maxRetries backoff moves).2 = (before ++ .noted event :: between) ++
        .queued (namespacedName ns name) :: rest := by
      simp [log, after_eq]
    exact h.served opened _ _ rest split
  · intro earlier pod later after_eq
    have split : (play maxRetries backoff moves).2 = (before ++ .noted event :: earlier) ++
        .read ns name pod :: later := by
      simp [log, after_eq]
    have read : pod.map Pod.networks =
        known (stored (before ++ .noted event :: earlier)) ns name := h.fits _ _ later split
    have stored_more : stored (before ++ .noted event :: earlier) =
        noted before ++ [event] ++ stored earlier := by
      rw [stored_append, stored_eq]
      rfl
    rw [read, stored_more]

def samplePod (networks : Option String) : Pod :=
  { ns := some "default", name := some "web", networks }

def sampleMoves : List Move := [
  .store (.restarted [samplePod none]), .note, .befall (.input (.synced [samplePod none])),
  .befall (.input .look), .store (.applied (samplePod (some "net1"))), .note, .queue,
  .befall (.input (.concluded (.ok ()))), .befall (.input .handBack), .befall (.input .look),
  .lookUp]

def sampleBefore : List Record := [
  .stored (.restarted [samplePod none]), .noted (.restarted [samplePod none]),
  .began "default/web", .stored (.applied (samplePod (some "net1")))]

def sampleAfter : List Record := [
  .queued "default/web", .began "default/web",
  .read "default" "web" (some (samplePod (some "net1")))]

theorem no_sample_edit_lost :
    ∃ between rest, sampleAfter = between ++ .queued (namespacedName "default" "web") :: rest ∧
      noted between = [] ∧
      (namespacedName "default" "web" ∈
          (play 2 {} sampleMoves).1.loop.controller.queue.dirty ∨
        .began (namespacedName "default" "web") ∈ rest) := by
  have named : ∀ networks, (samplePod networks).Named := by
    intro networks
    exact ⟨"default", "web", rfl, rfl, by simp [Clean], by simp [Clean]⟩
  have regular : ∀ event, .store event ∈ sampleMoves → Regular event := by
    intro event mem pod about
    simp only [sampleMoves, List.mem_cons, Move.store.injEq, reduceCtorEq, List.not_mem_nil,
      or_false, false_or] at mem
    rcases mem with rfl | rfl
    · obtain rfl := List.mem_singleton.mp about
      exact named none
    · obtain rfl := List.mem_singleton.mp about
      exact named (some "net1")
  have log : (play 2 {} sampleMoves).2 =
      sampleBefore ++ .noted (.applied (samplePod (some "net1"))) :: sampleAfter := rfl
  have edits : Edits (noted sampleBefore) (.applied (samplePod (some "net1"))) "default" "web" :=
    ⟨none, some "net1", rfl, rfl, by simp⟩
  exact (no_edit_lost 2 {} regular rfl log (.inr rfl) (by simp [Clean]) (by simp [Clean]) edits).1

end Lookout

end Hotplug
