import Hotplug.Proofs.Controller.Loop
/-!
The table of retries. Until the queue is shut down every key that it counts is on its way to
another pass or in one. A key is counted and its delay begins in one step; the worker holds the
key over that step, so that no moment in between is lost. What becomes of the table after a
shutdown is not covered, nor how many delays of a key go on at a time.
-/
namespace Hotplug.Loop

open Controller

/-- The keys that the table counts: those that were put off and not forgotten since. -/
def counted (l : Loop) : List String := l.controller.queue.requeues.map (·.1)

/-- A delay of the key goes on, or it waits to be handed out, or it is in a pass. While it is
handed back one of the first two must hold. -/
def OnItsWay (l : Loop) (k : String) : Prop :=
  k ∈ l.delayed ∨ k ∈ l.controller.queue.dirty ∨ l.controller.worker = .busy k

def KeepsPromises (l : Loop) : Prop := ∀ k ∈ l.counted, l.OnItsWay k

variable {l m : Loop} {k key : String}

theorem keepsPromises_start (maxRetries : Nat) (backoff : Backoff) :
    KeepsPromises (start maxRetries backoff) := by
  intro k counted
  cases counted

theorem counted_drop (l : Loop) (key : String) (result : Except PassFault Unit) :
    (l.drop key result).counted = l.counted.filter (· != key) := by
  simp [counted, drop, WorkQueue.forget, List.filter_map, Function.comp_def]

theorem counted_putOff (l : Loop) (key : String) (result : Except PassFault Unit) :
    (l.putOff key result).counted = key :: l.counted.filter (· != key) := by
  simp [counted, putOff, WorkQueue.countRequeue, List.filter_map, Function.comp_def]

/-- A key that is not in the pass that goes on has a delay or waits. -/
theorem OnItsWay.elsewhere (h : l.OnItsWay k) (busy : l.controller.worker = .busy key)
    (other : k ≠ key) : k ∈ l.delayed ∨ k ∈ l.controller.queue.dirty := by
  rcases h with delayed | dirty | works
  · exact .inl delayed
  · exact .inr dirty
  · exact absurd (Worker.busy.inj (works.symm.trans busy)) other

theorem OnItsWay.fire (h : l.OnItsWay k) (opened : l.controller.queue.isShutDown = false) :
    (l.fire key).OnItsWay k := by
  rcases h with delayed | dirty | busy
  · by_cases same : k = key
    · subst same
      exact .inr (.inl (WorkQueue.mem_add_dirty_self opened))
    · exact .inl ((List.mem_erase_of_ne same).mpr delayed)
  · exact .inr (.inl (WorkQueue.mem_add_dirty dirty))
  · exact .inr (.inr busy)

theorem OnItsWay.launch (h : l.OnItsWay k) {queue : WorkQueue}
    (idle : l.controller.worker = .idle) (got : l.controller.queue.get = (.key key, queue)) :
    (l.launch key queue).OnItsWay k := by
  rcases h with delayed | dirty | busy
  · exact .inl delayed
  · rcases WorkQueue.get_cases got with ⟨j, rest, -, offer, rfl⟩ | ⟨-, -, rfl⟩
    · obtain rfl : key = j := by simpa using offer
      by_cases same : k = key
      · subst same
        exact .inr (.inr rfl)
      · exact .inr (.inl (WorkQueue.mem_eraseKey.mpr ⟨dirty, same⟩))
    · exact .inr (.inl dirty)
  · cases idle.symm.trans busy

theorem KeepsPromises.turn (h : KeepsPromises l) (turn : Turn l m)
    (opened : m.controller.queue.isShutDown = false) : KeepsPromises m := by
  have before := turn.isOpen opened
  intro k counted
  cases turn with
  | phase phase => exact h k counted
  | close phase => cases opened
  | bring key =>
    have old : k ∈ l.counted := by simpa [Loop.counted, Loop.bring] using counted
    exact (h k old).imp_right (Or.imp_left WorkQueue.mem_add_dirty)
  | fire key waits =>
    have old : k ∈ l.counted := by simpa [Loop.counted, Loop.fire] using counted
    exact (h k old).fire before
  | launch key queue idle got =>
    have old : k ∈ l.counted := by
      simpa [Loop.counted, Loop.launch, WorkQueue.get_requeues got] using counted
    exact (h k old).launch idle got
  | drop key result busy last =>
    obtain ⟨old, other⟩ : k ∈ l.counted ∧ k ≠ key := by simpa [counted_drop] using counted
    exact ((h k old).elsewhere busy other).imp_right .inl
  | putOff key result busy retryable few =>
    have either : k = key ∨ k ∈ l.counted ∧ k ≠ key := by simpa [counted_putOff] using counted
    rcases either with rfl | ⟨old, other⟩
    · exact .inl (List.mem_append_right _ (List.mem_singleton_self k))
    · exact ((h k old).elsewhere busy other).imp (List.mem_append_left _) .inl
  | handBack key concluding =>
    -- the worker is through with its pass, so that what is counted has a delay or waits
    rcases h k counted with delayed | dirty | busy
    · exact .inl delayed
    · exact .inr (.inl dirty)
    · cases concluding.symm.trans busy

theorem KeepsPromises.turns (h : KeepsPromises l) (turns : Turns l m)
    (opened : m.controller.queue.isShutDown = false) : KeepsPromises m := by
  induction turns with
  | refl => exact h
  | tail _ turn ih => exact (ih (turn.isOpen opened)).turn turn opened

/-- However additions from outside, delays and passes come: until the queue is shut down, a key
that the table of retries counts has a delay that goes on, or waits to be handed out, or is held
for the pass that goes on. -/
theorem counted_keys_return (maxRetries : Nat) (backoff : Backoff) (events : List Event)
    (opened : (play maxRetries backoff events).controller.queue.isShutDown = false)
    {k : String} {n : Nat}
    (entry : (k, n) ∈ (play maxRetries backoff events).controller.queue.requeues) :
    k ∈ (play maxRetries backoff events).delayed ∨
      k ∈ (play maxRetries backoff events).controller.queue.dirty ∨
      k ∈ (play maxRetries backoff events).controller.queue.processing ∧
        (play maxRetries backoff events).controller.worker = .busy k := by
  have turns := turns_play maxRetries backoff events
  have staffed := (staffed_start maxRetries backoff).turns turns
  have counted : k ∈ (play maxRetries backoff events).counted := List.mem_map_of_mem entry
  have way := (keepsPromises_start maxRetries backoff).turns turns opened k counted
  refine way.imp_right (Or.imp_right fun busy => ?_)
  exact ⟨(staffed.mem_processing k).mpr (.inl busy), busy⟩

def overlappingEvents : List Event :=
  let failure : Event := .input (.concluded (.error (.missingUid "shop/cart")))
  [.input (.synced []), .input (.enqueue "shop/cart"), .input .look, failure, .input .handBack,
    .input (.enqueue "shop/cart"), .input .look, failure, .input (.enqueue "shop/cart"),
    .fire "shop/cart", .input .handBack]

/-- The end of a delay that changes nothing leaves the key waiting. -/
theorem swallowed_key_returns :
    ("shop/cart", 2) ∈ (play 2 {} overlappingEvents).controller.queue.requeues ∧
      ("shop/cart" ∈ (play 2 {} overlappingEvents).delayed ∨
        "shop/cart" ∈ (play 2 {} overlappingEvents).controller.queue.dirty ∨
        "shop/cart" ∈ (play 2 {} overlappingEvents).controller.queue.processing ∧
          (play 2 {} overlappingEvents).controller.worker = .busy "shop/cart") := by
  have opened : (play 2 {} overlappingEvents).controller.queue.isShutDown = false := by decide
  have entry : ("shop/cart", 2) ∈ (play 2 {} overlappingEvents).controller.queue.requeues := by
    decide
  exact ⟨entry, counted_keys_return 2 {} overlappingEvents opened entry⟩

end Hotplug.Loop
