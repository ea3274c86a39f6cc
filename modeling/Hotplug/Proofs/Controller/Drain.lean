import Hotplug.Proofs.Controller.Loop
/-!
The end of the work. A queue that was shut down hands out what waits in it, and the worker stops
after a number of strides that is known from the start. How long a pass takes is not covered, nor
that a worker that waits at the queue is called.
-/
namespace Hotplug

namespace Loop

open Controller

variable {l m : Loop} {key : String}

/-- The passes that started, and what still waits, are what waited. -/
structure WorksOff (l m : Loop) (passes : List String) : Prop where
  started : m.started = l.started ++ passes
  kept : (passes ++ m.controller.queue.dirty).Perm l.controller.queue.dirty

theorem WorksOff.still (started : m.started = l.started)
    (dirty : m.controller.queue.dirty = l.controller.queue.dirty) : WorksOff l m [] :=
  ⟨by simp [started], by simp [dirty]⟩

theorem WorksOff.trans {n : Loop} {passes more : List String} (h : WorksOff l m passes)
    (later : WorksOff m n more) : WorksOff l n (passes ++ more) := by
  refine ⟨by rw [later.started, h.started, List.append_assoc], ?_⟩
  rw [List.append_assoc]
  exact (later.kept.append_left passes).trans h.kept

theorem Turn.worksOff (turn : Turn l m) (h : Staffed l)
    (closed : l.controller.queue.isShutDown = true) :
    m.controller.queue.isShutDown = true ∧ ∃ passes, WorksOff l m passes := by
  cases turn with
  | launch key queue idle got =>
    exact ⟨(WorkQueue.get_isShutDown got).trans closed, [key], rfl, h.coherent.handed_perm got⟩
  | bring key =>
    refine ⟨by simpa [Loop.bring] using closed, [], .still rfl ?_⟩
    simp [Loop.bring, WorkQueue.add_closed closed]
  | fire key waits =>
    refine ⟨by simpa [Loop.fire] using closed, [], .still rfl ?_⟩
    simp [Loop.fire, WorkQueue.add_closed closed]
  | phase phase => exact ⟨closed, [], .still rfl rfl⟩
  | close phase => exact ⟨rfl, [], .still rfl rfl⟩
  | drop key result busy last => exact ⟨closed, [], .still rfl rfl⟩
  | putOff key result busy retryable few => exact ⟨closed, [], .still rfl rfl⟩
  | handBack key concluding => exact ⟨closed, [], .still rfl rfl⟩

theorem Turns.worksOff (turns : Turns l m) (h : Staffed l)
    (closed : l.controller.queue.isShutDown = true) :
    m.controller.queue.isShutDown = true ∧ ∃ passes, WorksOff l m passes := by
  induction turns with
  | refl => exact ⟨closed, [], .still rfl rfl⟩
  | tail turns turn ih =>
    obtain ⟨closed, passes, worked⟩ := ih
    obtain ⟨closed, more, worked'⟩ := turn.worksOff (h.turns turns) closed
    exact ⟨closed, passes ++ more, worked.trans worked'⟩

/-- How many strides the worker has to make until it has looked for the next key. -/
def strideCount : Worker → Nat
  | .idle => 1
  | .concluding _ => 2
  | .busy _ => 3

def isStride (l : Loop) (event : Event) : Bool :=
  l.controller.phase != .stopped &&
    match l.controller.worker, event with
    | .idle, .input .look | .busy _, .input (.concluded _) | .concluding _, .input .handBack => true
    | _, _ => false

def strides (l : Loop) : List Event → Nat
  | [] => 0
  | event :: events => (l.isStride event).toNat + (l.step event).strides events

def toil (l : Loop) : Nat :=
  if l.controller.phase = .stopped then 0
  else 3 * l.controller.queue.dirty.length + strideCount l.controller.worker

structure Closing (l : Loop) : Prop where
  closed : l.controller.queue.isShutDown = true
  phase : l.controller.phase = .draining ∨
    l.controller.phase = .stopped ∧ l.controller.worker = .idle ∧ l.controller.queue.queue = []

theorem closing_of_shutdown (running : l.controller.phase = .running) :
    Closing (l.step (.input .shutdown)) := by
  constructor <;> simp [step, take, Controller.step, running, shutDown, WorkQueue.shutDown]

theorem Closing.step_of_not_isStride (h : Closing l) {event : Event}
    (rests : l.isStride event = false) : (l.step event).controller = l.controller := by
  have added (key : String) : (l.controller.step (.enqueue key)).1 = l.controller := by
    simp [Controller.step, WorkQueue.add_closed h.closed]
  have begun : l.controller.phase ≠ .waiting := by
    rcases h.phase with phase | ⟨phase, -⟩ <;> simp [phase]
  cases event with
  | fire key =>
    by_cases waits : key ∈ l.delayed
    · simpa [step, waits] using added key
    · simp [step, waits]
  | input input =>
    show (l.controller.step input).1 = l.controller
    cases input with
    | enqueue key => exact added key
    | synced pods => simp [Controller.step, begun]
    | lost => simp [Controller.step, begun]
    | shutdown => rcases h.phase with phase | ⟨phase, -⟩ <;> simp [Controller.step, phase]
    | look =>
      rcases h.phase with phase | ⟨phase, -⟩
      · cases worker : l.controller.worker with
        | idle => simp [isStride, phase, worker] at rests
        | busy key => simp [Controller.step, phase, worker]
        | concluding key => simp [Controller.step, phase, worker]
      · simp [Controller.step, phase]
    | concluded result =>
      rcases h.phase with phase | ⟨-, idle, -⟩
      · cases worker : l.controller.worker with
        | busy key => simp [isStride, phase, worker] at rests
        | idle => simp [Controller.step, worker]
        | concluding key => simp [Controller.step, worker]
      · simp [Controller.step, idle]
    | handBack =>
      rcases h.phase with phase | ⟨-, idle, -⟩
      · cases worker : l.controller.worker with
        | concluding key => simp [isStride, phase, worker] at rests
        | idle => simp [Controller.step, worker]
        | busy key => simp [Controller.step, worker]
      · simp [Controller.step, idle]

/-- Nothing is held by an idle worker, so that nothing is dirty either if nothing is queued. -/
theorem Staffed.clean (h : Staffed l) (idle : l.controller.worker = .idle)
    (empty : l.controller.queue.queue = []) :
    l.controller.queue.dirty = [] ∧ l.controller.queue.processing = [] := by
  have free (k : String) : k ∉ l.controller.queue.processing := by
    rw [h.mem_processing, idle]
    simp
  refine ⟨?_, List.eq_nil_iff_forall_not_mem.mpr free⟩
  rw [List.eq_nil_iff_forall_not_mem]
  intro k dirty
  have queued := (h.coherent.mem_queue k).mpr ⟨dirty, free k⟩
  simp [empty] at queued

theorem Closing.look (h : Closing l) (staffed : Staffed l) (phase : l.controller.phase = .draining)
    (idle : l.controller.worker = .idle) :
    Closing (l.step (.input .look)) ∧ (l.step (.input .look)).toil + 1 = l.toil := by
  have looks : (l.step (.input .look)).controller = l.controller.look.1 := by
    simp [step, take, Controller.step, phase, idle]
  cases got : l.controller.queue.get with
  | mk offer queue =>
    have shut := (WorkQueue.get_isShutDown got).trans h.closed
    rcases WorkQueue.get_cases got with ⟨key, rest, -, rfl, -⟩ | ⟨empty, rfl, rfl⟩
    · have fewer := (staffed.coherent.handed_perm got).length_eq
      have after : l.controller.look.1 = { l.controller with queue, worker := .busy key } := by
        simp [Controller.look, got]
      rw [after] at looks
      refine ⟨⟨by simpa [looks] using shut, .inl (by simp [looks, phase])⟩, ?_⟩
      rw [List.length_cons] at fewer
      simp only [toil, looks, phase, idle, strideCount, reduceCtorEq, if_false]
      omega
    · rw [shut] at got
      have after : l.controller.look.1 = { l.controller with phase := .stopped } := by
        simp [Controller.look, got]
      rw [after] at looks
      refine ⟨⟨by simpa [looks] using shut, .inr (by simp [looks, idle, empty])⟩, ?_⟩
      simp [toil, looks, phase, idle, strideCount, (staffed.clean idle empty).1]

theorem Closing.concluded (h : Closing l) (phase : l.controller.phase = .draining)
    (busy : l.controller.worker = .busy key) (result : Except PassFault Unit) :
    Closing (l.step (.input (.concluded result))) ∧
      (l.step (.input (.concluded result))).toil + 1 = l.toil := by
  have ends : (l.step (.input (.concluded result))).controller =
      { l.controller with
        queue := (l.controller.settle key result).1, worker := .concluding key } := by
    simp [step, take, Controller.step, busy]
  have settled : (l.controller.settle key result).1.isShutDown = true ∧
      (l.controller.settle key result).1.dirty = l.controller.queue.dirty := by
    rcases settle_cases l.controller key result with ⟨-, queue, -⟩ | ⟨-, -, queue, -⟩
    · rw [queue]
      exact ⟨h.closed, rfl⟩
    · rw [queue]
      exact ⟨h.closed, rfl⟩
  refine ⟨⟨by simpa [ends] using settled.1, .inl (by simp [ends, phase])⟩, ?_⟩
  simp [toil, ends, phase, busy, strideCount, settled.2]

theorem Closing.handBack (h : Closing l) (phase : l.controller.phase = .draining)
    (concluding : l.controller.worker = .concluding key) :
    Closing (l.step (.input .handBack)) ∧ (l.step (.input .handBack)).toil + 1 = l.toil := by
  have ends : (l.step (.input .handBack)).controller =
      { l.controller with queue := l.controller.queue.done key, worker := .idle } := by
    simp [step, take, Controller.step, concluding]
  refine ⟨⟨by simpa [ends, WorkQueue.done] using h.closed, .inl (by simp [ends, phase])⟩, ?_⟩
  simp [toil, ends, phase, concluding, strideCount, WorkQueue.done]

theorem Closing.step (h : Closing l) (staffed : Staffed l) (event : Event) :
    Closing (l.step event) ∧ (l.step event).toil + (l.isStride event).toNat = l.toil := by
  cases strides : l.isStride event with
  | false =>
    have same := h.step_of_not_isStride strides
    exact ⟨⟨by rw [same]; exact h.closed, by rw [same]; exact h.phase⟩, by simp [toil, same]⟩
  | true =>
    have phase : l.controller.phase = .draining := by
      rcases h.phase with phase | ⟨phase, -⟩
      · exact phase
      · simp [isStride, phase] at strides
    simp only [isStride, phase] at strides
    split at strides
    · rename_i idle
      exact h.look staffed phase idle
    · rename_i busy
      exact h.concluded phase busy _
    · rename_i concluding
      exact h.handBack phase concluding
    · simp at strides

theorem Closing.events (h : Closing l) (staffed : Staffed l) (events : List Event) :
    Closing (events.foldl Loop.step l) ∧
      (events.foldl Loop.step l).toil + l.strides events = l.toil := by
  induction events generalizing l with
  | nil => exact ⟨h, rfl⟩
  | cons event events ih =>
    obtain ⟨closing, less⟩ := h.step staffed event
    obtain ⟨closing', less'⟩ := ih closing (staffed.turns (turns_step l event))
    refine ⟨closing', ?_⟩
    simp only [List.foldl_cons, strides]
    omega

theorem toil_eq_zero_iff : l.toil = 0 ↔ l.controller.phase = .stopped := by
  unfold toil
  split
  · simpa
  · rename_i goes
    cases l.controller.worker <;> simp [strideCount, goes]

theorem exists_stride (goes : l.controller.phase ≠ .stopped) : ∃ event, l.isStride event = true := by
  cases worker : l.controller.worker with
  | idle => exact ⟨.input .look, by simp [isStride, goes, worker]⟩
  | busy key => exact ⟨.input (.concluded (.ok ())), by simp [isStride, goes, worker]⟩
  | concluding key => exact ⟨.input .handBack, by simp [isStride, goes, worker]⟩

/-- From `l`, where the queue was just shut down, the worker gets to `m` in a number of strides. -/
structure Drains (l m : Loop) (strides : Nat) : Prop where
  /-- Every key that was dirty is handed out once or still dirty, and no other key is. -/
  handed : ∃ passes, WorksOff l m passes ∧ passes.Nodup ∧
    passes.length ≤ l.controller.queue.dirty.length
  goes : m.controller.phase ≠ .stopped → ∃ event, m.isStride event = true
  /-- It stops with the last of the strides that were left, three for a key and those of the pass
  that went on. -/
  stopped : m.controller.phase = .stopped ↔ strides = l.toil
  clean : m.controller.phase = .stopped → m.controller.queue.queue = [] ∧
    m.controller.queue.dirty = [] ∧ m.controller.queue.processing = []

theorem Closing.drains (h : Closing l) (staffed : Staffed l) (events : List Event) :
    Drains l (events.foldl Loop.step l) (l.strides events) := by
  have turns := turns_events l events
  have after := staffed.turns turns
  obtain ⟨closing, less⟩ := h.events staffed events
  obtain ⟨-, passes, worked⟩ := turns.worksOff staffed h.closed
  have nodup := worked.kept.nodup_iff.mpr staffed.coherent.dirty_nodup
  have length := worked.kept.length_eq
  rw [List.length_append] at length
  refine ⟨⟨passes, worked, (List.nodup_append.mp nodup).1, by omega⟩, exists_stride, ?_, ?_⟩
  · rw [← toil_eq_zero_iff]
    omega
  · intro stopped
    rcases closing.phase with phase | ⟨-, idle, empty⟩
    · rw [stopped] at phase
      cases phase
    · exact ⟨empty, after.clean idle empty⟩

end Loop

end Hotplug
