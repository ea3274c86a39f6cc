import Hotplug.Proofs.Controller.Loop
/-!
How many passes a key gets: each addition from outside pays for one pass and its retries. The
part of that which is not used up yet is the credit of the key. When passes are made is not
covered.
-/
namespace Hotplug.Loop

open Controller

/-- How often a key is still to be handed out: it is dirty, and its delays go on. -/
def pending (l : Loop) (k : String) : Nat :=
  (l.controller.queue.isAwaited k).toNat + l.delayed.count k

def requeueCount (l : Loop) (k : String) : Nat := l.controller.queue.requeueCount k

/-- The passes that a key can still get. -/
def credit (l : Loop) (k : String) : Nat :=
  let whole := (l.controller.maxRetries + 1) * l.pending k
  if l.controller.worker = .busy k then whole + (l.controller.maxRetries - l.requeueCount k)
  else whole - l.requeueCount k

variable {l m : Loop} {k key : String}

theorem credit_busy (busy : l.controller.worker = .busy k) : l.credit k =
    (l.controller.maxRetries + 1) * l.pending k +
      (l.controller.maxRetries - l.requeueCount k) := by
  simp [credit, busy]

theorem credit_free (free : l.controller.worker ≠ .busy k) : l.credit k =
    (l.controller.maxRetries + 1) * l.pending k - l.requeueCount k := by
  simp [credit, free]

theorem Turn.maxRetries (turn : Turn l m) : m.controller.maxRetries = l.controller.maxRetries := by
  cases turn <;> rfl

theorem Turns.maxRetries (turns : Turns l m) :
    m.controller.maxRetries = l.controller.maxRetries := by
  induction turns with
  | refl => rfl
  | tail _ turn ih => exact turn.maxRetries.trans ih

theorem requeueCount_get {queue : WorkQueue} {offer : WorkQueue.Offer}
    (got : l.controller.queue.get = (offer, queue)) :
    queue.requeueCount k = l.requeueCount k := by
  rcases WorkQueue.get_cases got with ⟨_, _, -, -, rfl⟩ | ⟨-, -, rfl⟩ <;> rfl

theorem credit_le {more : Nat} (retries : m.controller.maxRetries = l.controller.maxRetries)
    (count : m.requeueCount k = l.requeueCount k) (pending : m.pending k ≤ l.pending k + more)
    (busy : m.controller.worker = .busy k ↔ l.controller.worker = .busy k) :
    m.credit k ≤ l.credit k + (l.controller.maxRetries + 1) * more := by
  have whole := Nat.mul_le_mul_left (l.controller.maxRetries + 1) pending
  rw [Nat.mul_add] at whole
  by_cases works : l.controller.worker = .busy k
  · rw [credit_busy works, credit_busy (busy.mpr works), retries, count]
    omega
  · rw [credit_free works, credit_free fun now => works (busy.mp now), retries, count]
    omega

theorem credit_eq (retries : m.controller.maxRetries = l.controller.maxRetries)
    (count : m.requeueCount k = l.requeueCount k) (pending : m.pending k = l.pending k)
    (busy : m.controller.worker = .busy k ↔ l.controller.worker = .busy k) :
    m.credit k = l.credit k := by
  simp only [credit, retries, count, pending, busy]

section
variable {queue : WorkQueue} {result : Except PassFault Unit}

theorem pending_launch (staffed : Staffed l)
    (got : l.controller.queue.get = (.key key, queue)) :
    (l.launch key queue).pending k + [key].count k = l.pending k := by
  obtain ⟨dirty, left⟩ := staffed.isAwaited_started (k := k) got
  by_cases same : k = key
  · subst same
    simp [pending, launch, dirty, left, Nat.add_comm]
  · have other : ¬ key = k := Ne.symm same
    simp [pending, launch, left, same, other]

theorem credit_launch (staffed : Staffed l) (limit : l.requeueCount k ≤ l.controller.maxRetries)
    (idle : l.controller.worker = .idle) (got : l.controller.queue.get = (.key key, queue)) :
    (l.launch key queue).credit k + [key].count k = l.credit k := by
  have count : (l.launch key queue).requeueCount k = l.requeueCount k := requeueCount_get got
  have places := pending_launch (k := k) staffed got
  by_cases same : k = key
  · subst same
    have retries : (l.launch k queue).controller.maxRetries = l.controller.maxRetries := rfl
    rw [List.count_singleton_self] at places ⊢
    rw [credit_free (l := l) (by simp [idle]), credit_busy rfl, ← places, Nat.mul_succ, count,
      retries]
    omega
  · have other : ¬ key = k := Ne.symm same
    simp only [List.count_singleton, beq_iff_eq, other, if_false, Nat.add_zero] at places ⊢
    exact credit_eq rfl count places (by simp [launch, idle, other])

theorem requeueCount_drop :
    (l.drop key result).requeueCount k = if k = key then 0 else l.requeueCount k :=
  WorkQueue.requeueCount_forget

theorem credit_drop (k : String) (result : Except PassFault Unit)
    (busy : l.controller.worker = .busy key) : (l.drop key result).credit k +
    (if k = key then l.controller.maxRetries - l.requeueCount k else 0) = l.credit k := by
  by_cases same : k = key
  · subst same
    rw [if_pos rfl, credit_free (by simp [drop]), credit_busy busy, requeueCount_drop, if_pos rfl]
    rfl
  · have other : ¬ key = k := Ne.symm same
    rw [if_neg same, Nat.add_zero]
    refine credit_eq rfl ?_ rfl (by simp [drop, busy, other])
    rw [requeueCount_drop, if_neg same]

theorem requeueCount_putOff : (l.putOff key result).requeueCount k =
    if k = key then l.requeueCount key + 1 else l.requeueCount k :=
  WorkQueue.requeueCount_countRequeue

theorem pending_putOff :
    (l.putOff key result).pending k = l.pending k + if k = key then 1 else 0 := by
  by_cases same : k = key
  · subst same
    simp [pending, putOff, WorkQueue.countRequeue, WorkQueue.isAwaited, Nat.add_assoc]
  · have other : ¬ key = k := Ne.symm same
    simp [pending, putOff, WorkQueue.countRequeue, WorkQueue.isAwaited, same, other]

theorem credit_putOff (k : String) (result : Except PassFault Unit)
    (busy : l.controller.worker = .busy key) (few : l.requeueCount key < l.controller.maxRetries) :
    (l.putOff key result).credit k = l.credit k := by
  by_cases same : k = key
  · subst same
    have retries : (l.putOff k result).controller.maxRetries = l.controller.maxRetries := rfl
    rw [credit_free (by simp [putOff]), credit_busy busy, pending_putOff, if_pos rfl,
      requeueCount_putOff, if_pos rfl, Nat.mul_succ, retries]
    omega
  · have other : ¬ key = k := Ne.symm same
    refine credit_eq rfl ?_ ?_ (by simp [putOff, busy, other])
    · rw [requeueCount_putOff, if_neg same]
    · rw [pending_putOff, if_neg same, Nat.add_zero]

end

theorem pending_bring_other (other : k ≠ key) : (l.bring key).pending k = l.pending k := by
  simp [pending, bring, WorkQueue.isAwaited_add, other]

theorem pending_fire_other (other : k ≠ key) : (l.fire key).pending k = l.pending k := by
  simp [pending, fire, WorkQueue.isAwaited_add, other, List.count_erase_of_ne other]

theorem requeueCount_bring : (l.bring key).requeueCount k = l.requeueCount k :=
  WorkQueue.add_requeueCount l.controller.queue key k

theorem requeueCount_fire : (l.fire key).requeueCount k = l.requeueCount k :=
  WorkQueue.add_requeueCount l.controller.queue key k

theorem pending_bring_le : (l.bring key).pending k ≤ l.pending k + [key].count k := by
  by_cases same : k = key
  · subst same
    have once := Bool.toNat_le ((l.controller.queue.add k).isAwaited k)
    simp only [pending, bring, List.count_singleton_self]
    omega
  · rw [pending_bring_other same]
    omega

theorem pending_fire_le (waits : key ∈ l.delayed) : (l.fire key).pending k ≤ l.pending k := by
  by_cases same : k = key
  · subst same
    have counted : 0 < l.delayed.count k := List.count_pos_iff.mpr waits
    have once := Bool.toNat_le ((l.controller.queue.add k).isAwaited k)
    simp only [pending, fire, List.count_erase_self]
    omega
  · exact Nat.le_of_eq (pending_fire_other same)

theorem Turn.count_le (turn : Turn l m) (limit : l.requeueCount k ≤ l.controller.maxRetries) :
    m.requeueCount k ≤ l.controller.maxRetries := by
  cases turn with
  | phase phase => exact limit
  | close phase => exact limit
  | bring key =>
    rw [requeueCount_bring]
    exact limit
  | fire key waits =>
    rw [requeueCount_fire]
    exact limit
  | launch key queue idle got => exact Nat.le_trans (Nat.le_of_eq (requeueCount_get got)) limit
  | drop key result busy last =>
    rw [requeueCount_drop]
    split
    · exact Nat.zero_le _
    · exact limit
  | putOff key result busy retryable few =>
    rw [requeueCount_putOff]
    split
    · exact few
    · exact limit
  | handBack key concluding => exact limit

/-- What a key got and can still get grows by no more than what is brought pays for. -/
theorem Turn.balance (turn : Turn l m) (staffed : Staffed l)
    (limit : l.requeueCount k ≤ l.controller.maxRetries) :
    m.started.count k + m.credit k + (l.controller.maxRetries + 1) * l.brought.count k ≤
      l.started.count k + l.credit k + (l.controller.maxRetries + 1) * m.brought.count k := by
  cases turn with
  | phase phase => exact Nat.le_refl _
  | close phase => exact Nat.le_refl _
  | bring key =>
    have credit : (l.bring key).credit k ≤
        l.credit k + (l.controller.maxRetries + 1) * [key].count k :=
      credit_le rfl requeueCount_bring pending_bring_le Iff.rfl
    have started : (l.bring key).started = l.started := rfl
    have brought : (l.bring key).brought = l.brought ++ [key] := rfl
    rw [started, brought, List.count_append, Nat.mul_add]
    omega
  | fire key waits =>
    have credit : (l.fire key).credit k ≤ l.credit k + (l.controller.maxRetries + 1) * 0 :=
      credit_le rfl requeueCount_fire (pending_fire_le waits) Iff.rfl
    have started : (l.fire key).started = l.started := rfl
    have brought : (l.fire key).brought = l.brought := rfl
    rw [started, brought]
    omega
  | launch key queue idle got =>
    have credit := credit_launch staffed limit idle got
    have started : (l.launch key queue).started = l.started ++ [key] := rfl
    have brought : (l.launch key queue).brought = l.brought := rfl
    rw [started, brought, List.count_append]
    omega
  | drop key result busy last =>
    have credit := credit_drop k result busy
    have started : (l.drop key result).started = l.started := rfl
    have brought : (l.drop key result).brought = l.brought := rfl
    rw [started, brought]
    omega
  | putOff key result busy retryable few =>
    have credit := credit_putOff k result busy few
    have started : (l.putOff key result).started = l.started := rfl
    have brought : (l.putOff key result).brought = l.brought := rfl
    rw [started, brought]
    omega
  | handBack key concluding =>
    have credit : (l.handBack key).credit k = l.credit k :=
      credit_eq rfl rfl rfl (by simp [Loop.handBack, concluding])
    have started : (l.handBack key).started = l.started := rfl
    have brought : (l.handBack key).brought = l.brought := rfl
    rw [started, brought]
    omega

/-- What a key got and can still get was paid for. -/
structure Solvent (l : Loop) (k : String) : Prop where
  count_le : l.requeueCount k ≤ l.controller.maxRetries
  paid : l.started.count k + l.credit k ≤ (l.controller.maxRetries + 1) * l.brought.count k

theorem solvent_start (maxRetries : Nat) (backoff : Backoff) :
    Solvent (start maxRetries backoff) k := by
  refine ⟨?_, ?_⟩ <;>
    simp [start, requeueCount, WorkQueue.requeueCount, credit, pending, WorkQueue.isAwaited]

theorem Solvent.turn (h : Solvent l k) (staffed : Staffed l) (turn : Turn l m) : Solvent m k := by
  have balance := turn.balance staffed h.count_le
  have paid := h.paid
  constructor
  · rw [turn.maxRetries]
    exact turn.count_le h.count_le
  · rw [turn.maxRetries]
    omega

theorem Solvent.turns (h : Solvent l k) (staffed : Staffed l) (turns : Turns l m) :
    Solvent m k := by
  induction turns with
  | refl => exact h
  | tail turns turn ih => exact ih.turn (staffed.turns turns) turn

/-- The key was added from outside at most once, its passes failed in a way that may pass, and
nothing was shut down. -/
structure Steady (l : Loop) (k : String) : Prop where
  once : l.brought.count k ≤ 1
  failing : ∀ result, (k, result) ∈ l.concluded → IsRetryable result
  opened : l.controller.queue.isShutDown = false

theorem Steady.of_turn (h : Steady m k) (turn : Turn l m) : Steady l k := by
  cases turn with
  | phase phase => exact ⟨h.once, h.failing, h.opened⟩
  | close phase => exact absurd h.opened (by simp [Loop.close, WorkQueue.shutDown])
  | bring key =>
    refine ⟨Nat.le_trans ?_ h.once, h.failing, by simpa [Loop.bring] using h.opened⟩
    simp [Loop.bring]
  | fire key waits => exact ⟨h.once, h.failing, by simpa [Loop.fire] using h.opened⟩
  | launch key queue idle got =>
    refine ⟨h.once, h.failing, ?_⟩
    have opened := h.opened
    rcases WorkQueue.get_cases got with ⟨_, _, -, -, rfl⟩ | ⟨-, -, rfl⟩ <;> exact opened
  | drop key result busy last =>
    exact ⟨h.once, fun r old => h.failing r (List.mem_append_left _ old), h.opened⟩
  | putOff key result busy retryable few =>
    exact ⟨h.once, fun r old => h.failing r (List.mem_append_left _ old), h.opened⟩
  | handBack key concluding => exact ⟨h.once, h.failing, h.opened⟩

/-- The key is in one place at most, its account is settled to the last pass, and it is
forgotten once it is in none. -/
structure Exact (l : Loop) (k : String) : Prop where
  single : l.pending k + (if l.controller.worker = .busy k then 1 else 0) ≤ l.brought.count k
  paid : l.started.count k + l.credit k = (l.controller.maxRetries + 1) * l.brought.count k
  forgotten : l.pending k = 0 → l.controller.worker ≠ .busy k → l.requeueCount k = 0

theorem exact_start (maxRetries : Nat) (backoff : Backoff) :
    Exact (start maxRetries backoff) k := by
  refine ⟨?_, ?_, ?_⟩ <;>
    simp [start, requeueCount, WorkQueue.requeueCount, credit, pending, WorkQueue.isAwaited]

theorem Exact.congr (h : Exact l k)
    (retries : m.controller.maxRetries = l.controller.maxRetries)
    (count : m.requeueCount k = l.requeueCount k)
    (started : m.started.count k = l.started.count k) (pending : m.pending k = l.pending k)
    (brought : m.brought.count k = l.brought.count k)
    (busy : m.controller.worker = .busy k ↔ l.controller.worker = .busy k) : Exact m k := by
  refine ⟨?_, ?_, ?_⟩
  · simpa only [pending, brought, busy] using h.single
  · rw [started, credit_eq retries count pending busy, retries, brought]
    exact h.paid
  · rw [pending, count, ne_eq, busy]
    exact h.forgotten

theorem Exact.bring (h : Exact l k) (key : String) (steady : Steady (l.bring key) k) :
    Exact (l.bring key) k := by
  have opened := (steady.of_turn (.bring key)).opened
  by_cases same : k = key
  · subst same
    -- the first addition finds the key nowhere: not queued, not delayed and in no pass
    have first : l.brought.count k = 0 := by
      have once := steady.once
      simp only [Loop.bring, List.count_append, List.count_singleton_self] at once
      omega
    have single := h.single
    have free : l.controller.worker ≠ .busy k := by
      intro busy
      simp [busy, first] at single
    have absent : l.pending k = 0 := by omega
    have present : (l.bring k).pending k = 1 := by
      simp only [pending, Nat.add_eq_zero_iff] at absent
      simp [pending, Loop.bring, WorkQueue.isAwaited_add, opened, absent.2]
    have brought : (l.bring k).brought.count k = 1 := by simp [Loop.bring, first]
    have still_free : (l.bring k).controller.worker ≠ .busy k := free
    have paid := h.paid
    have retries : (l.bring k).controller.maxRetries = l.controller.maxRetries := rfl
    have started : (l.bring k).started = l.started := rfl
    rw [credit_free free, absent, first] at paid
    refine ⟨?_, ?_, fun none => absurd none (by simp [present])⟩
    · simp [present, brought, still_free]
    · rw [credit_free still_free, present, brought, requeueCount_bring, h.forgotten absent free,
        retries, started]
      omega
  · have other : ¬ key = k := Ne.symm same
    exact h.congr rfl requeueCount_bring rfl (pending_bring_other same)
      (by simp [Loop.bring, other]) Iff.rfl

theorem Exact.fire (h : Exact l k) (waits : key ∈ l.delayed) (steady : Steady l k) :
    Exact (l.fire key) k := by
  refine h.congr rfl requeueCount_fire rfl ?_ rfl Iff.rfl
  by_cases same : k = key
  · subst same
    -- the key is in one place at most, and that is the delay: it is not queued already
    have counted : 0 < l.delayed.count k := List.count_pos_iff.mpr waits
    have single := h.single
    have once := steady.once
    have unqueued : l.controller.queue.isAwaited k = false := by
      rw [← Bool.toNat_eq_zero]
      simp only [pending] at single
      omega
    have queued : (l.controller.queue.add k).isAwaited k = true := by
      simp [WorkQueue.isAwaited_add, steady.opened]
    simp only [pending, Loop.fire, List.count_erase_self, queued, unqueued, Bool.toNat_true,
      Bool.toNat_false]
    omega
  · exact pending_fire_other same

theorem Exact.launch (h : Exact l k) (staffed : Staffed l) {queue : WorkQueue}
    (limit : l.requeueCount k ≤ l.controller.maxRetries) (idle : l.controller.worker = .idle)
    (got : l.controller.queue.get = (.key key, queue)) : Exact (l.launch key queue) k := by
  have places := pending_launch (k := k) staffed got
  have credit := credit_launch staffed limit idle got
  have single := h.single
  have started : (l.launch key queue).started = l.started ++ [key] := rfl
  have brought : (l.launch key queue).brought = l.brought := rfl
  have worker : (l.launch key queue).controller.worker = .busy key := rfl
  refine ⟨?_, ?_, fun none free => ?_⟩
  · rw [idle, if_neg (by simp)] at single
    rw [brought, worker]
    simp only [Worker.busy.injEq]
    rw [List.count_singleton] at places
    simp only [beq_iff_eq] at places
    omega
  · refine Eq.trans ?_ h.paid
    rw [started, List.count_append]
    omega
  · have other : ¬ key = k := fun same => free (by rw [worker, same])
    rw [List.count_singleton, if_neg (by simpa using other)] at places
    have same : (l.launch key queue).requeueCount k = l.requeueCount k := requeueCount_get got
    rw [same]
    exact h.forgotten (by omega) (by simp [idle])

theorem Exact.drop (h : Exact l k) {result : Except PassFault Unit}
    (busy : l.controller.worker = .busy key)
    (last : k = key → l.controller.maxRetries ≤ l.requeueCount k) :
    Exact (l.drop key result) k := by
  have credit := credit_drop k result busy
  have single := h.single
  have worker : (l.drop key result).controller.worker = .concluding key := rfl
  refine ⟨?_, ?_, fun none free => ?_⟩
  · rw [worker, if_neg (by simp)]
    exact Nat.le_trans (Nat.add_le_add_left (Nat.zero_le _) _) single
  · have whole : (l.drop key result).credit k = l.credit k := by
      by_cases same : k = key
      · have used := last same
        rw [if_pos same] at credit
        omega
      · rwa [if_neg same, Nat.add_zero] at credit
    rw [whole]
    exact h.paid
  · rw [requeueCount_drop]
    by_cases same : k = key
    · rw [if_pos same]
    · have other : ¬ key = k := Ne.symm same
      rw [if_neg same]
      exact h.forgotten none (by simp [busy, other])

theorem Exact.putOff (h : Exact l k) {result : Except PassFault Unit}
    (busy : l.controller.worker = .busy key)
    (few : l.requeueCount key < l.controller.maxRetries) : Exact (l.putOff key result) k := by
  have credit := credit_putOff k result busy few
  have single := h.single
  have brought : (l.putOff key result).brought = l.brought := rfl
  have worker : (l.putOff key result).controller.worker = .concluding key := rfl
  refine ⟨?_, ?_, fun none free => ?_⟩
  · rw [busy] at single
    simp only [Worker.busy.injEq, eq_comm (a := key)] at single
    rw [worker, if_neg (by simp), pending_putOff, brought]
    exact single
  · rw [credit]
    exact h.paid
  · rw [pending_putOff] at none
    have same : ¬ k = key := by
      intro same
      simp [same] at none
    have other : ¬ key = k := Ne.symm same
    rw [if_neg same] at none
    rw [requeueCount_putOff, if_neg same]
    exact h.forgotten none (by simp [busy, other])

theorem Exact.turn (h : Exact l k) (staffed : Staffed l) (solvent : Solvent l k)
    (steady : Steady m k) (turn : Turn l m) : Exact m k := by
  have before := steady.of_turn turn
  cases turn with
  | phase phase => exact h.congr rfl rfl rfl rfl rfl Iff.rfl
  | close phase => exact h.congr rfl rfl rfl rfl rfl Iff.rfl
  | bring key => exact h.bring key steady
  | fire key waits => exact h.fire waits before
  | launch key queue idle got => exact h.launch staffed solvent.count_le idle got
  | drop key result busy last =>
    refine h.drop busy ?_
    rintro rfl
    have retryable := steady.failing result (by simp [Loop.drop])
    exact last.resolve_left fun bad => bad retryable
  | putOff key result busy retryable few => exact h.putOff busy few
  | handBack key concluding =>
    exact h.congr rfl rfl rfl rfl rfl (by simp [Loop.handBack, concluding])

theorem Exact.turns (h : Exact l k) (staffed : Staffed l) (solvent : Solvent l k)
    (steady : Steady m k) (turns : Turns l m) : Exact m k := by
  -- steadiness is known of the end of the run and goes back turn by turn
  induction turns with
  | refl => exact h
  | tail turns turn ih =>
    exact (ih (steady.of_turn turn)).turn (staffed.turns turns) (solvent.turns staffed turns)
      steady turn

/-- However additions, delays and passes come: a key gets no more passes than its additions from
outside pay for, and is never put off more often than it may be. A key that was added once and
whose passes fail in a way that may pass gets all of its passes, and is forgotten. -/
theorem passes_paid_for (maxRetries : Nat) (backoff : Backoff) (events : List Event)
    (k : String) :
    let l := play maxRetries backoff events
    l.started.count k ≤ (maxRetries + 1) * l.brought.count k ∧
      l.controller.queue.requeueCount k ≤ maxRetries ∧
      (maxRetries < UInt32.size → l.controller.queue.requeueCount k < UInt32.size) ∧
      (l.brought.count k = 1 → (∀ result, (k, result) ∈ l.concluded → IsRetryable result) →
        l.controller.queue.isShutDown = false → k ∉ l.controller.queue.dirty →
        k ∉ l.controller.queue.processing → k ∉ l.delayed →
          l.started.count k = maxRetries + 1 ∧ l.controller.queue.requeueCount k = 0) := by
  have turns := turns_play maxRetries backoff events
  have staffed := staffed_start maxRetries backoff
  have retries : (play maxRetries backoff events).controller.maxRetries = maxRetries :=
    Turns.maxRetries turns
  have solvent := (solvent_start (k := k) maxRetries backoff).turns staffed turns
  have count_le := solvent.count_le
  have paid := solvent.paid
  rw [retries] at count_le paid
  refine ⟨Nat.le_trans (Nat.le_add_right _ _) paid, count_le, Nat.lt_of_le_of_lt count_le, ?_⟩
  intro once failing opened clean free undelayed
  have settled := (exact_start (k := k) maxRetries backoff).turns staffed
    (solvent_start maxRetries backoff) ⟨Nat.le_of_eq once, failing, opened⟩ turns
  have rests : (play maxRetries backoff events).controller.worker ≠ .busy k := fun busy =>
    free (((staffed.turns turns).mem_processing k).mpr (.inl busy))
  have absent : (play maxRetries backoff events).pending k = 0 := by
    simp [pending, WorkQueue.isAwaited, clean, List.count_eq_zero.mpr undelayed]
  have all := settled.paid
  rw [credit_free rests, absent, retries, once] at all
  exact ⟨by omega, settled.forgotten absent rests⟩

def attempt (key : String) : List Event :=
  [.input .look, .input (.concluded (.error (.missingUid key))), .input .handBack, .fire key]

def sampleEvents : List Event :=
  [.input (.synced []), .input (.enqueue "shop/cart")] ++ attempt "shop/cart" ++
    [.input (.enqueue "shop/desk")] ++ attempt "shop/cart" ++ attempt "shop/desk" ++
    attempt "shop/cart"

theorem sample_passes_paid_for :
    (play 2 {} sampleEvents).started.count "shop/cart" = 3 ∧
      (play 2 {} sampleEvents).controller.queue.requeueCount "shop/cart" = 0 := by
  have concluded : (play 2 {} sampleEvents).concluded =
      [("shop/cart", .error (.missingUid "shop/cart")),
        ("shop/cart", .error (.missingUid "shop/cart")),
        ("shop/desk", .error (.missingUid "shop/desk")),
        ("shop/cart", .error (.missingUid "shop/cart"))] := rfl
  have failing : ∀ result, ("shop/cart", result) ∈ (play 2 {} sampleEvents).concluded →
      IsRetryable result := by
    intro result mem
    have eq : result = .error (.missingUid "shop/cart") := by simpa [concluded] using mem
    exact ⟨_, eq, rfl⟩
  exact (passes_paid_for 2 {} sampleEvents "shop/cart").2.2.2 (by decide) failing (by decide)
    (by decide) (by decide) (by decide)

end Hotplug.Loop
