import Hotplug.WorkQueue.Basic
import Mathlib.Data.List.Nodup
/-!
How the three collections of a work queue stay consistent: what is queued is what is dirty and
not held. A key may only be handed back by someone who holds it; the queue itself does not
check that. The counts of the keys that were put off are not covered.
-/
namespace Hotplug.WorkQueue

structure Coherent (q : WorkQueue) : Prop where
  queue_nodup : q.queue.Nodup
  dirty_nodup : q.dirty.Nodup
  processing_nodup : q.processing.Nodup
  mem_queue : ∀ k, k ∈ q.queue ↔ k ∈ q.dirty ∧ k ∉ q.processing

variable {q : WorkQueue} {key k : String} {keys : List String}

@[simp]
theorem mem_insertKey : k ∈ insertKey key keys ↔ k ∈ keys ∨ k = key := by
  unfold insertKey
  split
  · rename_i present
    have mem : key ∈ keys := by simpa using present
    exact ⟨.inl, fun h => h.elim id fun eq => eq ▸ mem⟩
  · simp

theorem nodup_concat (nodup : keys.Nodup) (fresh : key ∉ keys) : (keys ++ [key]).Nodup := by
  rw [List.nodup_append]
  refine ⟨nodup, by simp, ?_⟩
  rintro k mem l one rfl
  rw [List.mem_singleton] at one
  exact fresh (one ▸ mem)

theorem nodup_insertKey (nodup : keys.Nodup) : (insertKey key keys).Nodup := by
  unfold insertKey
  split
  · exact nodup
  · rename_i absent
    exact nodup_concat nodup (by simpa using absent)

@[simp]
theorem mem_eraseKey : k ∈ eraseKey key keys ↔ k ∈ keys ∧ k ≠ key := by
  simp [eraseKey]

theorem nodup_eraseKey (nodup : keys.Nodup) : (eraseKey key keys).Nodup :=
  nodup.sublist List.filter_sublist

theorem accepts_iff : q.accepts key = true ↔ q.isShutDown = false ∧ key ∉ q.dirty := by
  simp [accepts]

theorem add_of_rejected (rejected : q.accepts key = false) : q.add key = q := by
  simp [add, rejected]

theorem add_closed (closed : q.isShutDown = true) (key : String) : q.add key = q :=
  add_of_rejected (by simp [accepts, closed])

theorem add_queue_of_not_admitted (held : q.admits key = false) :
    (q.add key).queue = q.queue := by
  cases accepted : q.accepts key with
  | false => rw [add_of_rejected accepted]
  | true =>
    have busy : q.processing.contains key = true := by simpa [admits, accepted] using held
    simp only [add, accepted, busy, if_true]

theorem add_dirty (accepted : q.accepts key = true) : (q.add key).dirty = q.dirty ++ [key] := by
  simp [add, accepted]

theorem isAwaited_iff : q.isAwaited k = true ↔ k ∈ q.dirty := by simp [isAwaited]

theorem isAwaited_add :
    (q.add key).isAwaited k = (q.isAwaited k || (decide (k = key) && !q.isShutDown)) := by
  cases accepted : q.accepts key with
  | true =>
    simp [isAwaited, add_dirty accepted, (accepts_iff.mp accepted).1, Bool.decide_or]
  | false =>
    rw [add_of_rejected accepted]
    by_cases same : k = key
    · subst same
      simp only [accepts, Bool.and_eq_false_iff, Bool.not_eq_false'] at accepted
      rcases accepted with closed | dirty
      · simp [closed]
      · have awaited : q.isAwaited k = true := by simpa [isAwaited] using dirty
        simp [awaited]
    · simp [same]

@[simp]
theorem add_processing (q : WorkQueue) (key : String) :
    (q.add key).processing = q.processing := by
  unfold add
  split <;> rfl

theorem mem_add_dirty (dirty : k ∈ q.dirty) : k ∈ (q.add key).dirty := by
  rw [← isAwaited_iff] at *
  rw [isAwaited_add, dirty, Bool.true_or]

theorem mem_add_dirty_self (opened : q.isShutDown = false) : key ∈ (q.add key).dirty := by
  rw [← isAwaited_iff, isAwaited_add, opened]
  simp

@[simp]
theorem add_requeues (q : WorkQueue) (key : String) : (q.add key).requeues = q.requeues := by
  unfold add
  split <;> rfl

@[simp]
theorem add_requeueCount (q : WorkQueue) (key k : String) :
    (q.add key).requeueCount k = q.requeueCount k := by
  unfold add
  split <;> rfl

@[simp]
theorem add_isShutDown (q : WorkQueue) (key : String) :
    (q.add key).isShutDown = q.isShutDown := by
  unfold add
  split <;> rfl

theorem get_cases {offer : Offer} {next : WorkQueue} (h : q.get = (offer, next)) :
    (∃ key rest, q.queue = key :: rest ∧ offer = .key key ∧ next =
        { q with
          queue := rest
          dirty := eraseKey key q.dirty
          processing := insertKey key q.processing }) ∨
      (q.queue = [] ∧ offer = (if q.isShutDown then .closed else .nothing) ∧ next = q) := by
  unfold get at h
  split at h
  · rename_i key rest queue
    simp only [Prod.mk.injEq] at h
    exact .inl ⟨key, rest, queue, h.1.symm, h.2.symm⟩
  · rename_i queue
    simp only [Prod.mk.injEq] at h
    exact .inr ⟨queue, h.1.symm, h.2.symm⟩

theorem get_isShutDown {offer : Offer} {next : WorkQueue} (h : q.get = (offer, next)) :
    next.isShutDown = q.isShutDown := by
  rcases get_cases h with ⟨_, _, -, -, rfl⟩ | ⟨-, -, rfl⟩ <;> rfl

theorem get_requeues {offer : Offer} {next : WorkQueue} (h : q.get = (offer, next)) :
    next.requeues = q.requeues := by
  rcases get_cases h with ⟨_, _, -, -, rfl⟩ | ⟨-, -, rfl⟩ <;> rfl

theorem lookup_struck {β : Type} (entries : List (String × β)) (key : String) :
    (entries.filter (·.1 != key)).lookup key = none := by
  rw [List.lookup_eq_none_iff]
  intro entry mem
  have other := (List.mem_filter.mp mem).2
  rw [bne_iff_ne] at other
  simpa using Ne.symm other

theorem lookup_kept {β : Type} (entries : List (String × β)) (other : k ≠ key) :
    (entries.filter (·.1 != key)).lookup k = entries.lookup k := by
  induction entries with
  | nil => rfl
  | cons entry rest ih =>
    obtain ⟨l, n⟩ := entry
    by_cases struck : l = key
    · subst struck
      have apart : (k == l) = false := beq_eq_false_iff_ne.mpr other
      simpa [List.lookup_cons, apart] using ih
    · simp [struck, List.lookup_cons, ih]

theorem requeueCount_forget :
    (q.forget key).requeueCount k = if k = key then 0 else q.requeueCount k := by
  by_cases asked : k = key
  · subst asked
    simp [requeueCount, forget, lookup_struck]
  · simp [requeueCount, forget, lookup_kept _ asked, asked]

theorem requeueCount_countRequeue :
    (q.countRequeue key).requeueCount k =
      if k = key then q.requeueCount key + 1 else q.requeueCount k := by
  by_cases asked : k = key
  · subst asked
    simp [requeueCount, countRequeue]
  · have apart : (k == key) = false := beq_eq_false_iff_ne.mpr asked
    simp [requeueCount, countRequeue, List.lookup_cons, apart, lookup_kept _ asked, asked]

theorem coherent_empty : Coherent {} := by
  refine ⟨?_, ?_, ?_, ?_⟩ <;> simp

theorem Coherent.add (h : Coherent q) (key : String) : Coherent (q.add key) := by
  cases accepted : q.accepts key with
  | false => rwa [add_of_rejected accepted]
  | true =>
    have fresh := (accepts_iff.mp accepted).2
    have unqueued : key ∉ q.queue := fun mem => fresh ((h.mem_queue key).mp mem).1
    simp only [WorkQueue.add, accepted, if_true]
    by_cases busy : key ∈ q.processing
    · refine ⟨by simpa [busy] using h.queue_nodup, nodup_concat h.dirty_nodup fresh,
        h.processing_nodup, ?_⟩
      intro k
      simp only [List.contains_eq_mem, busy, decide_true, if_true, List.mem_append,
        List.mem_singleton, h.mem_queue]
      constructor
      · rintro ⟨dirty, free⟩
        exact ⟨.inl dirty, free⟩
      · rintro ⟨dirty | rfl, free⟩
        · exact ⟨dirty, free⟩
        · exact absurd busy free
    · refine ⟨by simpa [busy] using nodup_concat h.queue_nodup unqueued,
        nodup_concat h.dirty_nodup fresh, h.processing_nodup, ?_⟩
      intro k
      simp only [List.contains_eq_mem, busy, decide_false, Bool.false_eq_true, if_false,
        List.mem_append, List.mem_singleton, h.mem_queue]
      constructor
      · rintro (⟨dirty, free⟩ | rfl)
        · exact ⟨.inl dirty, free⟩
        · exact ⟨.inr rfl, busy⟩
      · rintro ⟨dirty | rfl, free⟩
        · exact .inl ⟨dirty, free⟩
        · exact .inr rfl

theorem Coherent.handed {next : WorkQueue} (h : Coherent q) (got : q.get = (.key key, next)) :
    key ∈ q.dirty ∧ key ∉ q.processing := by
  rcases get_cases got with ⟨k, rest, queue, offer, -⟩ | ⟨-, offer, -⟩
  · obtain rfl : key = k := by simpa using offer
    exact (h.mem_queue key).mp (by simp [queue])
  · split at offer <;> simp at offer

theorem Coherent.handed_perm {next : WorkQueue} (h : Coherent q)
    (got : q.get = (.key key, next)) : (key :: next.dirty).Perm q.dirty := by
  have dirty := (h.handed got).1
  rcases get_cases got with ⟨k, rest, -, offer, rfl⟩ | ⟨-, offer, -⟩
  · obtain rfl : key = k := by simpa using offer
    have erased := h.dirty_nodup.erase_eq_filter key
    simpa [eraseKey, erased] using (List.perm_cons_erase dirty).symm
  · split at offer <;> simp at offer

theorem Coherent.get {offer : Offer} {next : WorkQueue} (h : Coherent q)
    (got : q.get = (offer, next)) : Coherent next := by
  rcases get_cases got with ⟨key, rest, queue, -, rfl⟩ | ⟨-, -, rfl⟩
  · have nodup := h.queue_nodup
    rw [queue, List.nodup_cons] at nodup
    refine ⟨nodup.2, nodup_eraseKey h.dirty_nodup, nodup_insertKey h.processing_nodup, ?_⟩
    intro k
    have mem := h.mem_queue k
    rw [queue, List.mem_cons] at mem
    simp only [mem_eraseKey, mem_insertKey, not_or]
    constructor
    · intro later
      obtain ⟨dirty, free⟩ := mem.mp (.inr later)
      have other : k ≠ key := fun same => nodup.1 (same ▸ later)
      exact ⟨⟨dirty, other⟩, free, other⟩
    · rintro ⟨⟨dirty, other⟩, free, -⟩
      exact (mem.mpr ⟨dirty, free⟩).resolve_left other
  · exact h

theorem Coherent.done (h : Coherent q) (held : key ∈ q.processing) : Coherent (q.done key) := by
  have unqueued : key ∉ q.queue := fun mem => ((h.mem_queue key).mp mem).2 held
  simp only [WorkQueue.done, isAwaited, List.contains_eq_mem]
  by_cases awaited : key ∈ q.dirty
  · refine ⟨by simpa [awaited] using nodup_concat h.queue_nodup unqueued, h.dirty_nodup,
      nodup_eraseKey h.processing_nodup, ?_⟩
    intro k
    simp only [awaited, decide_true, if_true, List.mem_append, List.mem_singleton, h.mem_queue,
      mem_eraseKey, not_and_or, not_not]
    constructor
    · rintro (⟨dirty, free⟩ | rfl)
      · exact ⟨dirty, .inl free⟩
      · exact ⟨awaited, .inr rfl⟩
    · rintro ⟨dirty, free | rfl⟩
      · exact .inl ⟨dirty, free⟩
      · exact .inr rfl
  · refine ⟨by simpa [awaited] using h.queue_nodup, h.dirty_nodup,
      nodup_eraseKey h.processing_nodup, ?_⟩
    intro k
    simp only [awaited, decide_false, Bool.false_eq_true, if_false, h.mem_queue, mem_eraseKey,
      not_and_or, not_not]
    constructor
    · rintro ⟨dirty, free⟩
      exact ⟨dirty, .inl free⟩
    · rintro ⟨dirty, free | rfl⟩
      · exact ⟨dirty, free⟩
      · exact absurd dirty awaited

theorem Coherent.forget (h : Coherent q) (key : String) : Coherent (q.forget key) :=
  ⟨h.queue_nodup, h.dirty_nodup, h.processing_nodup, h.mem_queue⟩

theorem Coherent.countRequeue (h : Coherent q) (key : String) : Coherent (q.countRequeue key) :=
  ⟨h.queue_nodup, h.dirty_nodup, h.processing_nodup, h.mem_queue⟩

theorem Coherent.shutDown (h : Coherent q) : Coherent q.shutDown :=
  ⟨h.queue_nodup, h.dirty_nodup, h.processing_nodup, h.mem_queue⟩

end Hotplug.WorkQueue
