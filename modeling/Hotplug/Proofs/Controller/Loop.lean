import Hotplug.Controller
import Hotplug.Proofs.WorkQueue.Coherence
import Mathlib.Logic.Relation
/-!
The controller with the keys whose delay is not over, and what happened so far. A delay may end
at any moment after it began: how long it lasts is not covered.
-/
namespace Hotplug

namespace Controller

def Output.delayedKey? : Output → Option String
  | .putOff key _ => some key
  | .log _ | .begin _ => none

def Output.startedKey? : Output → Option String
  | .begin key => some key
  | .log _ | .putOff _ _ => none

def broughtKeys (c : Controller) : Input → List String
  | .enqueue key => [key]
  | .synced pods => if c.phase = .waiting then sweep pods else []
  | _ => []

def conclusion? (c : Controller) : Input → Option (String × Except PassFault Unit)
  | .concluded result =>
    match c.worker with
    | .busy key => some (key, result)
    | _ => none
  | _ => none

def IsRetryable (result : Except PassFault Unit) : Prop :=
  ∃ fault, result = .error fault ∧ fault.isRetryable = true

end Controller

open Controller

structure Loop where
  controller : Controller := {}
  delayed : List String := []
  brought : List String := []
  started : List String := []
  concluded : List (String × Except PassFault Unit) := []

namespace Loop

inductive Event where
  | input (input : Input)
  | fire (key : String)

def take (l : Loop) (input : Input) : Loop :=
  let (controller, outputs) := l.controller.step input
  { controller
    delayed := l.delayed ++ outputs.filterMap Output.delayedKey?
    brought := l.brought ++ l.controller.broughtKeys input
    started := l.started ++ outputs.filterMap Output.startedKey?
    concluded := l.concluded ++ (l.controller.conclusion? input).toList }

def step (l : Loop) : Event → Loop
  | .input input => l.take input
  | .fire key =>
    if key ∈ l.delayed then
      { l with
        controller := (l.controller.step (.enqueue key)).1
        delayed := l.delayed.erase key }
    else l

def start (maxRetries : Nat) (backoff : Backoff) : Loop := { controller := { maxRetries, backoff } }

def play (maxRetries : Nat) (backoff : Backoff) (events : List Event) : Loop :=
  events.foldl step (start maxRetries backoff)

section
variable (l : Loop) (key : String)

def close (phase : Phase) : Loop :=
  { l with controller := { l.controller with phase, queue := l.controller.queue.shutDown } }

def bring : Loop :=
  { l with
    controller := { l.controller with queue := l.controller.queue.add key }
    brought := l.brought ++ [key] }

def fire : Loop :=
  { l with
    controller := { l.controller with queue := l.controller.queue.add key }
    delayed := l.delayed.erase key }

def launch (queue : WorkQueue) : Loop :=
  { l with
    controller := { l.controller with queue, worker := .busy key }
    started := l.started ++ [key] }

def drop (result : Except PassFault Unit) : Loop :=
  { l with
    controller :=
      { l.controller with queue := l.controller.queue.forget key, worker := .concluding key }
    concluded := l.concluded ++ [(key, result)] }

def putOff (result : Except PassFault Unit) : Loop :=
  { l with
    controller :=
      { l.controller with
        queue := l.controller.queue.countRequeue key, worker := .concluding key }
    delayed := l.delayed ++ [key]
    concluded := l.concluded ++ [(key, result)] }

def handBack : Loop :=
  { l with controller :=
      { l.controller with queue := l.controller.queue.done key, worker := .idle } }

end

inductive Turn (l : Loop) : Loop → Prop where
  | phase (phase : Phase) : Turn l { l with controller := { l.controller with phase } }
  | close (phase : Phase) : Turn l (l.close phase)
  | bring (key : String) : Turn l (l.bring key)
  | fire (key : String) (waits : key ∈ l.delayed) : Turn l (l.fire key)
  | launch (key : String) (queue : WorkQueue) (idle : l.controller.worker = .idle)
      (got : l.controller.queue.get = (.key key, queue)) : Turn l (l.launch key queue)
  | drop (key : String) (result : Except PassFault Unit) (busy : l.controller.worker = .busy key)
      (last : ¬ IsRetryable result ∨
        l.controller.maxRetries ≤ l.controller.queue.requeueCount key) :
      Turn l (l.drop key result)
  | putOff (key : String) (result : Except PassFault Unit)
      (busy : l.controller.worker = .busy key) (retryable : IsRetryable result)
      (few : l.controller.queue.requeueCount key < l.controller.maxRetries) :
      Turn l (l.putOff key result)
  | handBack (key : String) (concluding : l.controller.worker = .concluding key) :
      Turn l (l.handBack key)

abbrev Turns : Loop → Loop → Prop := Relation.ReflTransGen Turn

variable {l m : Loop}

theorem turns_bring (l : Loop) (keys : List String) : Turns l
    { l with
      controller := { l.controller with queue := keys.foldl WorkQueue.add l.controller.queue }
      brought := l.brought ++ keys } := by
  induction keys generalizing l with
  | nil =>
    simp only [List.foldl_nil, List.append_nil]
    exact .refl
  | cons key keys ih =>
    have rest := ih (l.bring key)
    simp only [Loop.bring, List.append_assoc, List.singleton_append] at rest
    exact .head (.bring key) rest

theorem turns_synced (l : Loop) (pods : List Pod) : Turns l (l.take (.synced pods)) := by
  by_cases waiting : l.controller.phase = .waiting
  · have brings := turns_bring l (sweep pods)
    have after := brings.tail (.phase .running)
    simpa [take, Controller.step, Controller.begin, waiting, broughtKeys, conclusion?, say,
      Output.delayedKey?, Output.startedKey?, List.filterMap_cons] using after
  · simpa [take, Controller.step, waiting, broughtKeys, conclusion?] using .refl

theorem turns_shutdown (l : Loop) : Turns l (l.take .shutdown) := by
  cases phase : l.controller.phase with
  | waiting =>
    have turn := Turn.close (l := l) .stopped
    simpa [take, Controller.step, phase, abandon, close, broughtKeys, conclusion?, say,
      Output.delayedKey?, Output.startedKey?, List.filterMap_cons]
      using Relation.ReflTransGen.single turn
  | running =>
    have turn := Turn.close (l := l) .draining
    simpa [take, Controller.step, phase, Controller.shutDown, close, broughtKeys, conclusion?, say,
      Output.delayedKey?, Output.startedKey?, List.filterMap_cons]
      using Relation.ReflTransGen.single turn
  | draining => simpa [take, Controller.step, phase, broughtKeys, conclusion?] using .refl
  | stopped => simpa [take, Controller.step, phase, broughtKeys, conclusion?] using .refl

theorem turns_lost (l : Loop) : Turns l (l.take .lost) := by
  by_cases waiting : l.controller.phase = .waiting
  · have turn := Turn.close (l := l) .stopped
    simpa [take, Controller.step, waiting, abandon, close, broughtKeys, conclusion?, say,
      Output.delayedKey?, Output.startedKey?, List.filterMap_cons]
      using Relation.ReflTransGen.single turn
  · simpa [take, Controller.step, waiting, broughtKeys, conclusion?] using .refl

theorem turns_enqueue (l : Loop) (key : String) : Turns l (l.take (.enqueue key)) := by
  have turn := Turn.bring (l := l) key
  simpa [take, Controller.step, bring, broughtKeys, conclusion?]
    using Relation.ReflTransGen.single turn

/-- The idle worker looks: it starts a pass, stops or keeps waiting. -/
theorem turns_of_look (idle : l.controller.worker = .idle) :
    let (controller, outputs) := l.controller.look
    Turns l { l with
      controller
      delayed := l.delayed ++ outputs.filterMap Output.delayedKey?
      started := l.started ++ outputs.filterMap Output.startedKey? } := by
  cases got : l.controller.queue.get with
  | mk offer queue =>
    cases offer with
    | key key =>
      have turn := Turn.launch (l := l) key queue idle got
      simpa [Controller.look, got, launch, Output.delayedKey?, Output.startedKey?,
        List.filterMap_cons] using Relation.ReflTransGen.single turn
    | closed =>
      have turn := Turn.phase (l := l) .stopped
      simpa [Controller.look, got, say, Output.delayedKey?, Output.startedKey?,
        List.filterMap_cons] using Relation.ReflTransGen.single turn
    | nothing => simpa [Controller.look, got] using .refl

theorem turns_look (l : Loop) : Turns l (l.take .look) := by
  cases worker : l.controller.worker with
  | busy key => simpa [take, Controller.step, worker, broughtKeys, conclusion?] using .refl
  | concluding key => simpa [take, Controller.step, worker, broughtKeys, conclusion?] using .refl
  | idle =>
    have turns := turns_of_look worker
    cases phase : l.controller.phase with
    | waiting =>
      simpa [take, Controller.step, worker, phase, broughtKeys, conclusion?] using .refl
    | running =>
      simpa [take, Controller.step, worker, phase, broughtKeys, conclusion?] using turns
    | draining =>
      simpa [take, Controller.step, worker, phase, broughtKeys, conclusion?] using turns
    | stopped =>
      simpa [take, Controller.step, worker, phase, broughtKeys, conclusion?] using .refl

theorem settle_cases (c : Controller) (key : String) (result : Except PassFault Unit) :
    ((¬ IsRetryable result ∨ c.maxRetries ≤ c.queue.requeueCount key) ∧
        (c.settle key result).1 = c.queue.forget key ∧
        (c.settle key result).2.filterMap Output.delayedKey? = [] ∧
        (c.settle key result).2.filterMap Output.startedKey? = []) ∨
      (IsRetryable result ∧ c.queue.requeueCount key < c.maxRetries ∧
        (c.settle key result).1 = c.queue.countRequeue key ∧
        (c.settle key result).2.filterMap Output.delayedKey? = [key] ∧
        (c.settle key result).2.filterMap Output.startedKey? = []) := by
  cases result with
  | ok _ =>
    left
    simp [settle, IsRetryable]
  | error fault =>
    cases retryable : fault.isRetryable with
    | false =>
      left
      simp [settle, settleFault, IsRetryable, retryable, say, Output.delayedKey?,
        Output.startedKey?, List.filterMap_cons]
    | true =>
      by_cases few : c.queue.requeueCount key < c.maxRetries
      · right
        simp [settle, settleFault, IsRetryable, retryable, few, say, Output.delayedKey?,
          Output.startedKey?, List.filterMap_cons]
      · left
        simp [settle, settleFault, retryable, few, Nat.not_lt.mp few, say, Output.delayedKey?,
          Output.startedKey?, List.filterMap_cons]

theorem turns_concluded (l : Loop) (result : Except PassFault Unit) :
    Turns l (l.take (.concluded result)) := by
  cases worker : l.controller.worker with
  | idle => simpa [take, Controller.step, worker, broughtKeys, conclusion?] using .refl
  | concluding key => simpa [take, Controller.step, worker, broughtKeys, conclusion?] using .refl
  | busy key =>
    rcases settle_cases l.controller key result with
      ⟨last, queue, delayed, started⟩ | ⟨retryable, few, queue, delayed, started⟩
    · have turn := Turn.drop (l := l) key result worker last
      simpa [take, Controller.step, worker, drop, broughtKeys, conclusion?, queue, delayed,
        started] using Relation.ReflTransGen.single turn
    · have turn := Turn.putOff (l := l) key result worker retryable few
      simpa [take, Controller.step, worker, putOff, broughtKeys, conclusion?, queue, delayed,
        started] using Relation.ReflTransGen.single turn

theorem turns_handBack (l : Loop) : Turns l (l.take .handBack) := by
  cases worker : l.controller.worker with
  | idle => simpa [take, Controller.step, worker, broughtKeys, conclusion?] using .refl
  | busy key => simpa [take, Controller.step, worker, broughtKeys, conclusion?] using .refl
  | concluding key =>
    have turn := Turn.handBack (l := l) key worker
    simpa [take, Controller.step, worker, handBack, broughtKeys, conclusion?]
      using Relation.ReflTransGen.single turn

theorem turns_step (l : Loop) (event : Event) : Turns l (l.step event) := by
  cases event with
  | input input =>
    cases input with
    | synced pods => exact turns_synced l pods
    | lost => exact turns_lost l
    | shutdown => exact turns_shutdown l
    | enqueue key => exact turns_enqueue l key
    | look => exact turns_look l
    | concluded result => exact turns_concluded l result
    | handBack => exact turns_handBack l
  | fire key =>
    by_cases waits : key ∈ l.delayed
    · have turn := Turn.fire (l := l) key waits
      simpa [step, waits, Controller.step, fire] using Relation.ReflTransGen.single turn
    · simpa [step, waits] using .refl

theorem turns_events (l : Loop) (events : List Event) : Turns l (events.foldl step l) := by
  induction events generalizing l with
  | nil => exact .refl
  | cons event rest ih => exact (turns_step l event).trans (ih (l.step event))

theorem turns_play (maxRetries : Nat) (backoff : Backoff) (events : List Event) :
    Turns (start maxRetries backoff) (play maxRetries backoff events) :=
  turns_events (start maxRetries backoff) events

/-- The queue is consistent, and what it counts as held is what the worker has. -/
structure Staffed (l : Loop) : Prop where
  coherent : WorkQueue.Coherent l.controller.queue
  mem_processing : ∀ k, k ∈ l.controller.queue.processing ↔
    l.controller.worker = .busy k ∨ l.controller.worker = .concluding k

theorem staffed_start (maxRetries : Nat) (backoff : Backoff) :
    Staffed (start maxRetries backoff) := by
  refine ⟨WorkQueue.coherent_empty, ?_⟩
  simp [start]

theorem Staffed.isAwaited_started (h : Staffed l) {key k : String} {queue : WorkQueue}
    (got : l.controller.queue.get = (.key key, queue)) :
    l.controller.queue.isAwaited key = true ∧
      queue.isAwaited k = (l.controller.queue.isAwaited k && decide (k ≠ key)) := by
  refine ⟨WorkQueue.isAwaited_iff.mpr (h.coherent.handed got).1, ?_⟩
  rcases WorkQueue.get_cases got with ⟨j, rest, -, offer, rfl⟩ | ⟨-, offer, -⟩
  · obtain rfl : key = j := by simpa using offer
    rw [Bool.eq_iff_iff]
    simp [WorkQueue.isAwaited]
  · split at offer <;> simp at offer

theorem Staffed.turn (h : Staffed l) (turn : Turn l m) : Staffed m := by
  cases turn with
  | phase phase => exact ⟨h.coherent, h.mem_processing⟩
  | close phase => exact ⟨h.coherent.shutDown, h.mem_processing⟩
  | bring key => exact ⟨h.coherent.add key, by simpa [bring] using h.mem_processing⟩
  | fire key waits => exact ⟨h.coherent.add key, by simpa [fire] using h.mem_processing⟩
  | launch key queue idle got =>
    refine ⟨h.coherent.get got, ?_⟩
    intro k
    rcases WorkQueue.get_cases got with ⟨j, rest, -, offer, rfl⟩ | ⟨-, offer, -⟩
    · obtain rfl : key = j := by simpa using offer
      simp [launch, h.mem_processing, idle, eq_comm]
    · split at offer <;> simp at offer
  | drop key result busy last =>
    refine ⟨h.coherent.forget key, ?_⟩
    simpa [drop, WorkQueue.forget, busy] using h.mem_processing
  | putOff key result busy retryable few =>
    refine ⟨h.coherent.countRequeue key, ?_⟩
    simpa [putOff, WorkQueue.countRequeue, busy] using h.mem_processing
  | handBack key concluding =>
    have held : key ∈ l.controller.queue.processing :=
      (h.mem_processing key).mpr (.inr concluding)
    refine ⟨h.coherent.done held, ?_⟩
    intro k
    simp only [handBack, WorkQueue.done, WorkQueue.mem_eraseKey, h.mem_processing, concluding]
    constructor
    · rintro ⟨mem | mem, other⟩
      · cases mem
      · exact absurd (Worker.concluding.inj mem).symm other
    · rintro (mem | mem) <;> cases mem

theorem Staffed.turns (h : Staffed l) (turns : Turns l m) : Staffed m := by
  induction turns with
  | refl => exact h
  | tail _ turn ih => exact ih.turn turn

theorem Turn.isOpen (turn : Turn l m) (opened : m.controller.queue.isShutDown = false) :
    l.controller.queue.isShutDown = false := by
  cases turn with
  | close phase => cases opened
  | bring key => simpa [Loop.bring] using opened
  | fire key waits => simpa [Loop.fire] using opened
  | launch key queue idle got => exact (WorkQueue.get_isShutDown got).symm.trans opened
  | phase phase => exact opened
  | drop key result busy last => exact opened
  | putOff key result busy retryable few => exact opened
  | handBack key concluding => exact opened

theorem Turn.waiting (turn : Turn l m) : ∃ new, m.started = l.started ++ new ∧
    ∀ k ∈ l.controller.queue.dirty, k ∈ m.controller.queue.dirty ∨ k ∈ new := by
  cases turn with
  | launch key queue idle got =>
    refine ⟨[key], rfl, ?_⟩
    intro k dirty
    rcases WorkQueue.get_cases got with ⟨j, rest, -, offer, rfl⟩ | ⟨-, -, rfl⟩
    · obtain rfl : key = j := by simpa using offer
      by_cases same : k = key
      · exact .inr (by simp [same])
      · exact .inl (WorkQueue.mem_eraseKey.mpr ⟨dirty, same⟩)
    · exact .inl dirty
  | bring key =>
    exact ⟨[], by simp [Loop.bring], fun k dirty => .inl (WorkQueue.mem_add_dirty dirty)⟩
  | fire key waits =>
    exact ⟨[], by simp [Loop.fire], fun k dirty => .inl (WorkQueue.mem_add_dirty dirty)⟩
  | close phase => exact ⟨[], by simp [Loop.close], fun k dirty => .inl dirty⟩
  | phase phase => exact ⟨[], by simp, fun k dirty => .inl dirty⟩
  | drop key result busy last => exact ⟨[], by simp [Loop.drop], fun k dirty => .inl dirty⟩
  | putOff key result busy retryable few =>
    exact ⟨[], by simp [Loop.putOff], fun k dirty => .inl dirty⟩
  | handBack key concluding => exact ⟨[], by simp [Loop.handBack], fun k dirty => .inl dirty⟩

theorem Turns.isOpen (turns : Turns l m) (opened : m.controller.queue.isShutDown = false) :
    l.controller.queue.isShutDown = false := by
  induction turns with
  | refl => exact opened
  | tail _ turn ih => exact ih (turn.isOpen opened)

theorem Turns.waiting (turns : Turns l m) : ∃ new, m.started = l.started ++ new ∧
    ∀ k ∈ l.controller.queue.dirty, k ∈ m.controller.queue.dirty ∨ k ∈ new := by
  induction turns with
  | refl => exact ⟨[], by simp, fun k dirty => .inl dirty⟩
  | tail _ turn ih =>
    obtain ⟨new, started, kept⟩ := ih
    obtain ⟨more, started', kept'⟩ := turn.waiting
    refine ⟨new ++ more, by rw [started', started, List.append_assoc], ?_⟩
    intro k dirty
    rcases kept k dirty with dirty | mem
    · exact (kept' k dirty).imp_right fun mem => List.mem_append_right new mem
    · exact .inr (List.mem_append_left more mem)

end Loop

end Hotplug
