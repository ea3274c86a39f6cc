import Hotplug.Proofs.Controller.Retries
/-!
What becomes of a key once the controller has forgotten it. Passes of it start again only for what
was under way at that moment, a delay that was not over or an addition during the last pass, and
for what is added from outside later. How soon they start is not covered.
-/
namespace Hotplug.Loop

open Controller

variable {l m : Loop} {k : String}

theorem Turns.grows (turns : Turns l m) : ∃ passes brought,
    m.started = l.started ++ passes ∧ m.brought = l.brought ++ brought := by
  induction turns with
  | refl => exact ⟨[], [], (List.append_nil _).symm, (List.append_nil _).symm⟩
  | tail _ turn ih =>
    obtain ⟨passes, brought, started, added⟩ := ih
    cases turn with
    | bring key =>
      refine ⟨passes, brought ++ [key], started, ?_⟩
      rw [bring, added, List.append_assoc]
    | launch key queue idle got =>
      refine ⟨passes ++ [key], brought, ?_, added⟩
      rw [launch, started, List.append_assoc]
    | phase _ | close _ | fire _ _ | drop _ _ _ _ | putOff _ _ _ _ _ | handBack _ _ =>
      exact ⟨passes, brought, started, added⟩

theorem Turns.balance (turns : Turns l m) (staffed : Staffed l)
    (limit : l.requeueCount k ≤ l.controller.maxRetries) :
    m.started.count k + m.credit k + (l.controller.maxRetries + 1) * l.brought.count k ≤
      l.started.count k + l.credit k + (l.controller.maxRetries + 1) * m.brought.count k := by
  have whole : m.requeueCount k ≤ l.controller.maxRetries ∧
      m.started.count k + m.credit k + (l.controller.maxRetries + 1) * l.brought.count k ≤
        l.started.count k + l.credit k + (l.controller.maxRetries + 1) * m.brought.count k := by
    induction turns with
    | refl => exact ⟨limit, Nat.le_refl _⟩
    | tail turns turn ih =>
      obtain ⟨count_le, before⟩ := ih
      have same := Turns.maxRetries turns
      rw [← same] at count_le
      have step := turn.balance (staffed.turns turns) count_le
      rw [same] at step
      constructor
      · rw [← same]
        exact turn.count_le count_le
      · omega
  exact whole.2

/-- A key that was forgotten can only use up what is under way. -/
theorem credit_dropped (key : String) (result : Except PassFault Unit) :
    (l.drop key result).credit key =
      (l.controller.maxRetries + 1) * (l.drop key result).pending key := by
  have free : (l.drop key result).controller.worker ≠ .busy key := by simp [drop]
  rw [credit_free free, requeueCount_drop, if_pos rfl]
  rfl

/-- The passes that start after a key was forgotten are paid for by what was under way then and
by what is brought since. -/
theorem passes_after_drop {result : Except PassFault Unit} (staffed : Staffed l)
    (busy : l.controller.worker = .busy k)
    (last : ¬ IsRetryable result ∨ l.controller.maxRetries ≤ l.requeueCount k)
    (turns : Turns (l.drop k result) m) : ∃ passes brought,
      m.started = (l.drop k result).started ++ passes ∧
      m.brought = (l.drop k result).brought ++ brought ∧
      passes.count k ≤ (l.controller.maxRetries + 1) *
        ((l.drop k result).pending k + brought.count k) := by
  obtain ⟨passes, brought, started, added⟩ := Turns.grows turns
  refine ⟨passes, brought, started, added, ?_⟩
  have forgotten : (l.drop k result).requeueCount k ≤ (l.drop k result).controller.maxRetries := by
    rw [requeueCount_drop, if_pos rfl]
    exact Nat.zero_le _
  have balance := Turns.balance turns (staffed.turn (.drop k result busy last)) forgotten
  have retries : (l.drop k result).controller.maxRetries = l.controller.maxRetries := rfl
  rw [started, added, List.count_append, List.count_append, credit_dropped, retries,
    Nat.mul_add] at balance
  rw [Nat.mul_add]
  omega

theorem step_concluded {result : Except PassFault Unit} (busy : l.controller.worker = .busy k)
    (last : ¬ IsRetryable result ∨ l.controller.maxRetries ≤ l.requeueCount k) :
    l.step (.input (.concluded result)) = l.drop k result := by
  rcases settle_cases l.controller k result with
    ⟨-, queue, delayed, started⟩ | ⟨retryable, few, -⟩
  · simp [step, take, Controller.step, busy, drop, broughtKeys, conclusion?, queue, delayed,
      started]
  · rcases last with other | many
    · exact absurd retryable other
    · exact absurd few (Nat.not_lt.mpr many)

/-- A key that is dropped rests, but for what was under way: a further pass of it takes an
addition from outside since, a delay that was not over or an addition during the last pass, and
each of these pays for one pass and its retries. -/
theorem dropped_key_rests (maxRetries : Nat) (backoff : Backoff) (before after : List Event)
    {k : String} {result : Except PassFault Unit}
    (busy : (play maxRetries backoff before).controller.worker = .busy k)
    (last : ¬ IsRetryable result ∨
      maxRetries ≤ (play maxRetries backoff before).controller.queue.requeueCount k) :
    let dropped := play maxRetries backoff (before ++ [.input (.concluded result)])
    let ended := play maxRetries backoff (before ++ .input (.concluded result) :: after)
    dropped.controller.queue.requeueCount k = 0 ∧ ∃ passes brought,
      ended.started = dropped.started ++ passes ∧ ended.brought = dropped.brought ++ brought ∧
      passes.count k ≤ (maxRetries + 1) *
        ((if k ∈ dropped.controller.queue.dirty then 1 else 0) + dropped.delayed.count k +
          brought.count k) ∧
      (k ∈ passes →
        k ∈ brought ∨ k ∈ dropped.delayed ∨ k ∈ dropped.controller.queue.dirty) := by
  have turns := turns_play maxRetries backoff before
  have staffed := (staffed_start maxRetries backoff).turns turns
  have retries : (play maxRetries backoff before).controller.maxRetries = maxRetries :=
    Turns.maxRetries turns
  have moment : play maxRetries backoff (before ++ [.input (.concluded result)]) =
      (play maxRetries backoff before).step (.input (.concluded result)) := by
    rw [play, List.foldl_append]
    rfl
  have later : play maxRetries backoff (before ++ .input (.concluded result) :: after) =
      after.foldl step ((play maxRetries backoff before).step (.input (.concluded result))) := by
    rw [play, List.foldl_append]
    rfl
  rw [moment, later]
  generalize play maxRetries backoff before = l at *
  subst retries
  rw [step_concluded busy last]
  obtain ⟨passes, brought, started, added, few⟩ :=
    passes_after_drop staffed busy last (turns_events (l.drop k result) after)
  have under_way : (l.drop k result).pending k =
      (if k ∈ (l.drop k result).controller.queue.dirty then 1 else 0) +
        (l.drop k result).delayed.count k := by
    by_cases dirty : k ∈ (l.drop k result).controller.queue.dirty <;>
      simp [pending, WorkQueue.isAwaited, dirty]
  rw [under_way] at few
  refine ⟨requeueCount_drop.trans (if_pos rfl), passes, brought, started, added, few, ?_⟩
  intro again
  by_contra rests
  simp only [not_or] at rests
  obtain ⟨unbrought, undelayed, clean⟩ := rests
  have none : passes.count k ≤ 0 := by
    simpa [clean, List.count_eq_zero.mpr undelayed, List.count_eq_zero.mpr unbrought] using few
  have some : 0 < passes.count k := List.count_pos_iff.mpr again
  omega

def sampleFailure : Except PassFault Unit := .error (.missingUid "shop/cart")

theorem sampleFailure_isRetryable : IsRetryable sampleFailure := ⟨_, rfl, rfl⟩

def sampleOnly : List Event := [.input (.synced []), .input (.enqueue "shop/cart"), .input .look]

theorem sample_key_rests : ∃ passes,
    (play 0 {} (sampleOnly ++ .input (.concluded sampleFailure) ::
      [.input .handBack, .input (.enqueue "shop/desk"), .input .look])).started =
        (play 0 {} (sampleOnly ++ [.input (.concluded sampleFailure)])).started ++ passes ∧
      "shop/cart" ∉ passes := by
  have busy : (play 0 {} sampleOnly).controller.worker = .busy "shop/cart" := rfl
  have last : ¬ IsRetryable sampleFailure ∨
      0 ≤ (play 0 {} sampleOnly).controller.queue.requeueCount "shop/cart" := .inr (Nat.zero_le _)
  obtain ⟨-, passes, brought, started, added, -, only⟩ := dropped_key_rests 0 {} sampleOnly
    [.input .handBack, .input (.enqueue "shop/desk"), .input .look] busy last
  have parts : ["shop/cart"] ++ ["shop/desk"] = ["shop/cart"] ++ brought := added
  refine ⟨passes, started, ?_⟩
  intro again
  have causes := only again
  rw [← List.append_cancel_left parts] at causes
  revert causes
  decide

/-- The last pass of the key goes on, and fails; later another one starts, though nothing was
brought since. -/
structure Returns (maxRetries : Nat) (before after : List Event) (k : String)
    (result : Except PassFault Unit) : Prop where
  busy : (play maxRetries {} before).controller.worker = .busy k
  retryable : IsRetryable result
  used : maxRetries ≤ (play maxRetries {} before).controller.queue.requeueCount k
  unbrought : (play maxRetries {} (before ++ .input (.concluded result) :: after)).brought =
    (play maxRetries {} (before ++ [.input (.concluded result)])).brought
  started : (play maxRetries {} (before ++ .input (.concluded result) :: after)).started =
    (play maxRetries {} (before ++ [.input (.concluded result)])).started ++ [k]

def sampleOvertaken : List Event :=
  sampleOnly ++ [.input (.concluded sampleFailure), .input .handBack,
    .input (.enqueue "shop/cart"), .input .look]

/-- A delay outlives the drop of its key, and so does an addition during the last pass. -/
theorem dropped_key_returns :
    Returns 1 sampleOvertaken [.input .handBack, .fire "shop/cart", .input .look] "shop/cart"
        sampleFailure ∧
      Returns 0 (sampleOnly ++ [.input (.enqueue "shop/cart")])
        [.input .handBack, .input .look] "shop/cart" sampleFailure := by
  constructor
  · exact ⟨by decide, sampleFailure_isRetryable, by decide, by decide, by decide⟩
  · exact ⟨by decide, sampleFailure_isRetryable, by decide, by decide, by decide⟩

end Hotplug.Loop
