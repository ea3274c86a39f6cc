import Hotplug.Proofs.Controller.Drain
import Hotplug.Readiness
import Mathlib.Data.List.Induction
/-!
The controller with the caches that it waits for. Caches tell of themselves and go away at any
moment, the waiter looks at them at any moment, and in between anything may befall the loop. That
the waiter is told of a change is not covered, nor what a pass reads from the caches.
-/
namespace Hotplug

structure Service where
  signals : List Signal
  readiness : Readiness := .waiting 0
  loop : Loop

namespace Service

open Controller

inductive Move where
  | tell (cache : Nat) (isSynced : Bool)
  | drop (cache : Nat)
  | check (pods : List Pod)
  | befall (event : Loop.Event)

def Move.event? : Move → Option Loop.Event
  | .befall (.input (.synced _)) | .befall (.input .lost) => none
  | .befall event => some event
  | .tell _ _ | .drop _ | .check _ => none

def check (s : Service) (pods : List Pod) : Service :=
  match s.readiness.look s.signals with
  | .waiting passed => { s with readiness := .waiting passed }
  | .ready => { s with readiness := .ready, loop := s.loop.step (.input (.synced pods)) }
  | .lost => { s with readiness := .lost, loop := s.loop.step (.input .lost) }

def step (s : Service) (move : Move) : Service :=
  match move with
  | .tell cache isSynced => { s with signals := s.signals.modify cache (·.tell isSynced) }
  | .drop cache => { s with signals := s.signals.modify cache Signal.drop }
  | .check pods => if s.loop.controller.phase = .waiting then s.check pods else s
  | .befall _ => { s with loop := move.event?.elim s.loop s.loop.step }

def start (signals : List Signal) (maxRetries : Nat) (backoff : Backoff) : Service :=
  { signals, loop := Loop.start maxRetries backoff }

def play (signals : List Signal) (maxRetries : Nat) (backoff : Backoff) (moves : List Move) :
    Service :=
  moves.foldl step (start signals maxRetries backoff)

/-- The waiter would pass the cache if it looked now. -/
def Sees (s : Service) (cache : Nat) : Prop :=
  ∃ passed, s.readiness = .waiting passed ∧ passed ≤ cache ∧
    ∀ i, passed ≤ i → i ≤ cache → ∃ signal, s.signals[i]? = some signal ∧ signal.isSynced = true

/-- The cache went away before it synced and before the waiter passed it. -/
structure Misses (s : Service) (cache : Nat) : Prop where
  gone : ∃ signal, s.signals[cache]? = some signal ∧ signal.isGone = true ∧
    signal.isSynced = false
  unpassed : ∀ passed, s.readiness = .waiting passed → passed ≤ cache
  unready : s.readiness ≠ .ready

end Service

namespace Readiness

def Passes (r : Readiness) (cache : Nat) : Prop :=
  match r with
  | .waiting passed => cache < passed
  | .ready => True
  | .lost => False

theorem synced_of_advance_passes {passed n : Nat} {signals : List Signal}
    (passes : (advance passed signals).Passes (passed + n)) (inside : n < signals.length) :
    ∀ i ≤ n, ∃ signal, signals[i]? = some signal ∧ signal.isSynced = true := by
  induction signals generalizing passed n with
  | nil => simp at inside
  | cons signal signals ih =>
    cases synced : signal.isSynced with
    | false =>
      refine absurd passes ?_
      cases gone : signal.isGone <;> simp [advance, synced, gone, Passes]
    | true =>
      simp only [advance, synced, if_true] at passes
      intro i le
      cases i with
      | zero => exact ⟨signal, rfl, synced⟩
      | succ i =>
        obtain ⟨n, rfl⟩ : ∃ m, n = m + 1 := ⟨n - 1, by omega⟩
        rw [← Nat.add_assoc, Nat.add_right_comm] at passes
        exact ih passes (by simpa using inside) i (by omega)

end Readiness

namespace Service

variable {s : Service} {i passed : Nat}

theorem sees_of_look (waits : s.readiness = .waiting passed) (new : passed ≤ i)
    (inside : i < s.signals.length) (passes : (s.readiness.look s.signals).Passes i) :
    s.Sees i := by
  obtain ⟨n, rfl⟩ := Nat.exists_eq_add_of_le new
  simp only [Readiness.look, waits] at passes
  have synced := Readiness.synced_of_advance_passes passes (by simp; omega)
  refine ⟨passed, waits, new, ?_⟩
  intro j low high
  obtain ⟨m, rfl⟩ := Nat.exists_eq_add_of_le low
  simpa using synced m (by omega)

end Service

namespace Loop

open Controller

variable {l : Loop}

structure Resting (l : Loop) : Prop where
  phase : l.controller.phase = .waiting ∨ l.controller.phase = .stopped
  idle : l.controller.worker = .idle
  unstarted : l.started = []

theorem Resting.step (h : Resting l) (event : Event)
    (other : l.controller.phase = .waiting → ∀ pods, event ≠ .input (.synced pods)) :
    Resting (l.step event) := by
  obtain ⟨phase, idle, unstarted⟩ := h
  cases event with
  | fire key =>
    by_cases waits : key ∈ l.delayed
    · constructor <;> simp [Loop.step, waits, Controller.step, phase, idle, unstarted]
    · constructor <;> simp [Loop.step, waits, phase, idle, unstarted]
  | input input =>
    rcases phase with phase | phase
    · cases input with
      | synced pods => exact absurd rfl (other phase pods)
      | _ =>
        constructor <;>
          simp [Loop.step, take, Controller.step, abandon, say, Output.startedKey?, phase, idle,
            unstarted]
    · cases input <;> constructor <;>
        simp [Loop.step, take, Controller.step, phase, idle, unstarted]

theorem waiting_of_look {c : Controller} (waiting : c.look.1.phase = .waiting) :
    c.phase = .waiting := by
  unfold Controller.look at waiting
  split at waiting
  · exact waiting
  · cases waiting
  · exact waiting

theorem waiting_of_input {c : Controller} {input : Input}
    (waiting : (c.step input).1.phase = .waiting) : c.phase = .waiting := by
  by_contra begun
  cases input with
  | enqueue key => exact begun waiting
  | synced pods => simp [Controller.step, begun] at waiting
  | lost => simp [Controller.step, begun] at waiting
  | shutdown => cases phase : c.phase <;> simp_all [Controller.step, shutDown]
  | look =>
    simp only [Controller.step] at waiting
    split at waiting
    · exact begun (waiting_of_look waiting)
    · exact begun (waiting_of_look waiting)
    · exact begun waiting
  | concluded result => cases worker : c.worker <;> simp_all [Controller.step]
  | handBack => cases worker : c.worker <;> simp_all [Controller.step]

/-- The loop never goes back to waiting for the caches. -/
theorem waiting_of_step {event : Event} (waiting : (l.step event).controller.phase = .waiting) :
    l.controller.phase = .waiting := by
  cases event with
  | input input => exact waiting_of_input waiting
  | fire key =>
    by_cases waits : key ∈ l.delayed
    · simpa [step, waits, Controller.step] using waiting
    · simpa [step, waits] using waiting

end Loop

namespace Service

open Controller

variable {s : Service} {i passed : Nat}

theorem event?_ne_synced {move : Move} {event : Loop.Event} (given : move.event? = some event)
    (pods : List Pod) : event ≠ .input (.synced pods) := by
  rintro rfl
  unfold Move.event? at given
  split at given <;> simp_all

/-- The waiter waits while the loop does, and nothing starts until it is through. -/
structure Orderly (s : Service) : Prop where
  waits : s.loop.controller.phase = .waiting → ∃ passed, s.readiness = .waiting passed
  rests : s.readiness ≠ .ready → s.loop.Resting

theorem orderly_start (signals : List Signal) (maxRetries : Nat) (backoff : Backoff) :
    Orderly (start signals maxRetries backoff) :=
  ⟨fun _ => ⟨0, rfl⟩, fun _ => ⟨.inl rfl, rfl, rfl⟩⟩

theorem Orderly.check (h : Orderly s) (waiting : s.loop.controller.phase = .waiting)
    (pods : List Pod) : Orderly (s.check pods) := by
  obtain ⟨passed, waits⟩ := h.waits waiting
  have resting := h.rests (by simp [waits])
  unfold Service.check
  split
  · exact ⟨fun _ => ⟨_, rfl⟩, fun _ => resting⟩
  · refine ⟨fun again => ?_, fun unready => absurd rfl unready⟩
    simp [Loop.step, Loop.take, Controller.step, waiting, begin] at again
  · refine ⟨fun again => ?_, fun _ => resting.step (.input .lost) (by simp)⟩
    simp [Loop.step, Loop.take, Controller.step, waiting, abandon] at again

theorem Orderly.step (h : Orderly s) (move : Move) : Orderly (s.step move) := by
  cases move with
  | tell cache isSynced => exact ⟨h.waits, h.rests⟩
  | drop cache => exact ⟨h.waits, h.rests⟩
  | check pods =>
    by_cases waiting : s.loop.controller.phase = .waiting
    · simpa [Service.step, waiting] using h.check waiting pods
    · simpa [Service.step, waiting] using h
  | befall event =>
    cases given : (Move.befall event).event? with
    | none => simpa [Service.step, given] using h
    | some outer =>
      simp only [Service.step, given, Option.elim_some]
      refine ⟨fun waiting => h.waits (Loop.waiting_of_step waiting), fun unready => ?_⟩
      exact (h.rests unready).step outer fun _ => event?_ne_synced given

theorem readiness_check (s : Service) (pods : List Pod) :
    (s.check pods).readiness = s.readiness.look s.signals := by
  unfold check
  split <;> simp_all

theorem readiness_step (s : Service) (move : Move) :
    (s.step move).readiness = s.readiness ∨
      (∃ pods, move = .check pods) ∧ s.loop.controller.phase = .waiting ∧
        (s.step move).readiness = s.readiness.look s.signals := by
  cases move with
  | tell cache isSynced => exact .inl rfl
  | drop cache => exact .inl rfl
  | befall event => exact .inl rfl
  | check pods =>
    by_cases waiting : s.loop.controller.phase = .waiting
    · exact .inr ⟨⟨pods, rfl⟩, waiting, by simp [step, waiting, readiness_check]⟩
    · exact .inl (by simp [step, waiting])

theorem signals_check (s : Service) (pods : List Pod) : (s.check pods).signals = s.signals := by
  unfold check
  split <;> rfl

theorem signals_length_step (s : Service) (move : Move) :
    (s.step move).signals.length = s.signals.length := by
  cases move with
  | tell cache isSynced => simp [step]
  | drop cache => simp [step]
  | befall event => rfl
  | check pods =>
    simp only [step]
    split
    · rw [signals_check]
    · rfl

theorem gone_step (move : Move)
    (gone : ∃ signal, s.signals[i]? = some signal ∧ signal.isGone = true ∧
      signal.isSynced = false) :
    ∃ signal, (s.step move).signals[i]? = some signal ∧ signal.isGone = true ∧
      signal.isSynced = false := by
  obtain ⟨signal, told, gone, unsynced⟩ := gone
  cases move with
  | tell cache isSynced =>
    by_cases same : cache = i <;> simp [step, told, same, Signal.tell, gone, unsynced]
  | drop cache => by_cases same : cache = i <;> simp [step, told, same, Signal.drop, gone, unsynced]
  | befall event => exact ⟨signal, told, gone, unsynced⟩
  | check pods =>
    simp only [step]
    split
    · rw [signals_check]
      exact ⟨signal, told, gone, unsynced⟩
    · exact ⟨signal, told, gone, unsynced⟩

theorem Misses.step (h : Misses s i) (orderly : Orderly s) (move : Move) :
    Misses (s.step move) i := by
  have gone := gone_step move h.gone
  rcases readiness_step s move with same | ⟨-, waiting, looks⟩
  · exact ⟨gone, by rw [same]; exact h.unpassed, by rw [same]; exact h.unready⟩
  · obtain ⟨passed, waits⟩ := orderly.waits waiting
    obtain ⟨signal, told, -, unsynced⟩ := h.gone
    have inside : i < s.signals.length := (List.getElem?_eq_some_iff.mp told).1
    have blocked : ¬ (s.step move).readiness.Passes i := by
      rw [looks]
      intro passes
      obtain ⟨_, -, below, all⟩ := sees_of_look waits (h.unpassed passed waits) inside passes
      obtain ⟨other, told', synced⟩ := all i below (Nat.le_refl i)
      obtain rfl : signal = other := Option.some.inj (told.symm.trans told')
      simp [unsynced] at synced
    refine ⟨gone, fun q waits' => ?_, fun ready => blocked (by rw [ready]; trivial)⟩
    rw [waits'] at blocked
    exact Nat.le_of_not_lt blocked

/-- Once the loop no longer waits for the caches, only what befalls it moves it. -/
theorem loop_step (begun : s.loop.controller.phase ≠ .waiting) (move : Move) :
    (s.step move).loop = move.event?.elim s.loop s.loop.step := by
  cases move with
  | tell cache isSynced => rfl
  | drop cache => rfl
  | befall event => rfl
  | check pods => simp [step, begun, Move.event?]

theorem begun_step (begun : s.loop.controller.phase ≠ .waiting) (move : Move) :
    (s.step move).loop.controller.phase ≠ .waiting := by
  rw [loop_step begun]
  cases move.event? with
  | none => exact begun
  | some event => exact fun waiting => begun (Loop.waiting_of_step waiting)

theorem loop_moves (begun : s.loop.controller.phase ≠ .waiting) (moves : List Move) :
    (moves.foldl step s).loop = (moves.filterMap Move.event?).foldl Loop.step s.loop := by
  induction moves generalizing s with
  | nil => rfl
  | cons move moves ih =>
    rw [List.foldl_cons, ih (begun_step begun move), loop_step begun]
    cases given : move.event? <;> simp [given]

/-- The loop ended before the waiter was through. -/
structure GivenUp (s : Service) : Prop where
  begun : s.loop.controller.phase ≠ .waiting
  unready : s.readiness ≠ .ready

theorem GivenUp.step (h : GivenUp s) (move : Move) : GivenUp (s.step move) := by
  refine ⟨begun_step h.begun move, ?_⟩
  rcases readiness_step s move with same | ⟨-, waiting, -⟩
  · rw [same]
    exact h.unready
  · exact absurd waiting h.begun

theorem Orderly.shutdown (h : Orderly s) (unready : s.readiness ≠ .ready) :
    GivenUp (s.step (.befall (.input .shutdown))) := by
  refine ⟨?_, unready⟩
  rcases (h.rests unready).phase with phase | phase <;>
    simp [Service.step, Move.event?, Loop.step, Loop.take, Controller.step, abandon, phase]

theorem turns_check (s : Service) (pods : List Pod) : Loop.Turns s.loop (s.check pods).loop := by
  unfold check
  split
  · exact .refl
  · exact Loop.turns_step s.loop (.input (.synced pods))
  · exact Loop.turns_step s.loop (.input .lost)

theorem turns_step (s : Service) (move : Move) : Loop.Turns s.loop (s.step move).loop := by
  cases move with
  | tell cache isSynced => exact .refl
  | drop cache => exact .refl
  | check pods =>
    simp only [step]
    split
    · exact turns_check s pods
    · exact .refl
  | befall event =>
    simp only [step]
    cases (Move.befall event).event? with
    | none => exact .refl
    | some outer => exact Loop.turns_step s.loop outer

theorem keeps_moves {P : Service → Prop} (keeps : ∀ s move, P s → P (s.step move)) (h : P s)
    (moves : List Move) : P (moves.foldl step s) := by
  induction moves generalizing s with
  | nil => exact h
  | cons move moves ih => exact ih (keeps s move h)

section

variable (signals : List Signal) (maxRetries : Nat) (backoff : Backoff)

theorem orderly_play (moves : List Move) : Orderly (play signals maxRetries backoff moves) :=
  keeps_moves (fun _ move h => h.step move) (orderly_start signals maxRetries backoff) moves

theorem staffed_play (moves : List Move) : (play signals maxRetries backoff moves).loop.Staffed :=
  keeps_moves (P := fun s => s.loop.Staffed) (fun s move h => h.turns (turns_step s move))
    (Loop.staffed_start maxRetries backoff) moves

theorem signals_length_play (moves : List Move) :
    (play signals maxRetries backoff moves).signals.length = signals.length :=
  keeps_moves (P := fun s => s.signals.length = signals.length)
    (fun s move h => (signals_length_step s move).trans h) rfl moves

theorem play_append (before after : List Move) :
    play signals maxRetries backoff (before ++ after) =
      after.foldl step (play signals maxRetries backoff before) :=
  List.foldl_append

/-- At some moment the waiter looked and found the cache synced. -/
def Saw (moves : List Move) (cache : Nat) : Prop :=
  ∃ before pods after, moves = before ++ .check pods :: after ∧
    (play signals maxRetries backoff before).Sees cache

variable {signals maxRetries backoff}

theorem Saw.concat {moves : List Move} {cache : Nat} (h : Saw signals maxRetries backoff moves cache)
    (move : Move) : Saw signals maxRetries backoff (moves ++ [move]) cache := by
  obtain ⟨before, pods, after, rfl, sees⟩ := h
  exact ⟨before, pods, after ++ [move], by simp, sees⟩

theorem saw_of_passes {cache : Nat} (inside : cache < signals.length) (moves : List Move)
    (passes : (play signals maxRetries backoff moves).readiness.Passes cache) :
    Saw signals maxRetries backoff moves cache := by
  induction moves using List.reverseRecOn with
  | nil => simp [play, start, Readiness.Passes] at passes
  | append_singleton moves move ih =>
    rw [play_append] at passes
    simp only [List.foldl_cons, List.foldl_nil] at passes
    rcases readiness_step (play signals maxRetries backoff moves) move with
      same | ⟨⟨pods, rfl⟩, waiting, looks⟩
    · rw [same] at passes
      exact (ih passes).concat move
    · rw [looks] at passes
      obtain ⟨passed, waits⟩ := (orderly_play signals maxRetries backoff moves).waits waiting
      by_cases old : cache < passed
      · exact (ih (by rw [waits]; exact old)).concat _
      · rw [← signals_length_play signals maxRetries backoff moves] at inside
        exact ⟨moves, pods, [], rfl, sees_of_look waits (Nat.le_of_not_lt old) inside passes⟩

theorem unstarted_of_unready {moves : List Move}
    (unready : (play signals maxRetries backoff moves).readiness ≠ .ready) :
    (play signals maxRetries backoff moves).loop.started = [] :=
  ((orderly_play signals maxRetries backoff moves).rests unready).unstarted

end

/-- No pass starts before the waiter saw every cache synced, and none at all if a cache goes away
or a shutdown comes before that. From the shutdown of a running loop on, every key that was dirty
is handed out once more and no other key is. -/
theorem service_starts_and_drains (signals : List Signal) (maxRetries : Nat) (backoff : Backoff)
    (moves : List Move) :
    ((play signals maxRetries backoff moves).loop.started ≠ [] →
      ∀ cache < signals.length, Saw signals maxRetries backoff moves cache) ∧
    (∀ before after cache, moves = before ++ after →
      (play signals maxRetries backoff before).Misses cache →
      (play signals maxRetries backoff moves).loop.started = []) ∧
    (∀ before after, moves = before ++ .befall (.input .shutdown) :: after →
      ((play signals maxRetries backoff before).readiness ≠ .ready →
        (play signals maxRetries backoff moves).loop.started = []) ∧
      ((play signals maxRetries backoff before).loop.controller.phase = .running →
        Loop.Drains ((play signals maxRetries backoff before).loop.step (.input .shutdown))
          (play signals maxRetries backoff moves).loop
          (((play signals maxRetries backoff before).loop.step (.input .shutdown)).strides
            (after.filterMap Move.event?)))) := by
  refine ⟨?_, ?_, ?_⟩
  · intro started cache inside
    refine saw_of_passes inside moves ?_
    by_cases ready : (play signals maxRetries backoff moves).readiness = .ready
    · rw [ready]
      trivial
    · exact absurd (unstarted_of_unready ready) started
  · rintro before after cache rfl misses
    refine unstarted_of_unready ?_
    rw [play_append]
    have kept := keeps_moves (P := fun s => Orderly s ∧ Misses s cache)
      (fun s move h => ⟨h.1.step move, h.2.step h.1 move⟩)
      ⟨orderly_play signals maxRetries backoff before, misses⟩ after
    exact kept.2.unready
  · rintro before after rfl
    have orderly := orderly_play signals maxRetries backoff before
    refine ⟨fun unready => ?_, fun running => ?_⟩
    · refine unstarted_of_unready ?_
      rw [play_append]
      exact (keeps_moves (fun _ move h => h.step move) (orderly.shutdown unready) after).unready
    · have closing := Loop.closing_of_shutdown running
      have staffed := (staffed_play signals maxRetries backoff before).turns
        (Loop.turns_step _ (.input .shutdown))
      have begun : (play signals maxRetries backoff before).loop.controller.phase ≠ .waiting := by
        simp [running]
      rw [play_append, loop_moves begun]
      exact closing.drains staffed (after.filterMap Move.event?)

def sampleOpening : List Move :=
  [.tell 0 true, .check [], .tell 1 true, .check [], .befall (.input (.enqueue "shop/cart")),
    .befall (.input .look), .befall (.input (.enqueue "shop/cart")),
    .befall (.input (.enqueue "shop/desk"))]

def sampleEnding : List Move :=
  [.befall (.input (.concluded (.error (.missingUid "shop/cart")))), .befall (.fire "shop/cart"),
    .befall (.input (.enqueue "shop/late")), .befall (.input .handBack), .befall (.input .look),
    .befall (.input (.concluded (.ok ()))), .befall (.input .handBack), .befall (.input .look),
    .befall (.input (.concluded (.ok ()))), .befall (.input .handBack), .befall (.input .look)]

theorem sample_starts_and_drains :
    let signals : List Signal := [⟨false, false⟩, ⟨false, false⟩]
    let moves := sampleOpening ++ .befall (.input .shutdown) :: sampleEnding
    (play signals 2 {} moves).loop.started = ["shop/cart", "shop/desk", "shop/cart"] ∧
      (∀ cache < 2, Saw signals 2 {} moves cache) ∧
      (play signals 2 {} moves).loop.controller.phase = .stopped ∧
      (play signals 2 {} moves).loop.controller.queue.dirty = [] := by
  intro signals moves
  have runs := service_starts_and_drains signals 2 {} moves
  have started : (play signals 2 {} moves).loop.started =
      ["shop/cart", "shop/desk", "shop/cart"] := by decide
  have drains := (runs.2.2 sampleOpening sampleEnding rfl).2 (by decide)
  have stopped := drains.stopped.mpr (by decide)
  exact ⟨started, runs.1 (by simp [started]), stopped, (drains.clean stopped).2.1⟩

end Service

end Hotplug
