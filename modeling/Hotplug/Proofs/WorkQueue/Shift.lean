import Hotplug.Proofs.WorkQueue.Coherence
import Mathlib.Data.List.Induction
/-!
A work queue with any number of workers, producers and delays, in any order of their moves.
How workers are called when a key comes is not covered: one may look at any moment.
-/
namespace Hotplug

namespace WorkQueue

inductive Move (ω : Type) where
  | add (key : String)
  | get (worker : ω)
  | done (worker : ω) (key : String)
  | putOff (key : String)
  | fire (key : String)
  | forget (key : String)
  | shutDown
  deriving DecidableEq, Repr

inductive Record (ω : Type) where
  | accepted (key : String)
  | handed (worker : ω) (key : String)
  deriving DecidableEq, Repr

/-- A queue, the keys that workers hold, and those whose delay is not over. -/
structure Shift (ω : Type) where
  work : WorkQueue := {}
  held : List (ω × String) := []
  delayed : List String := []
  deriving DecidableEq, Repr

variable {ω : Type}

namespace Record

def acceptedKey? : Record ω → Option String
  | .accepted key => some key
  | .handed _ _ => none

def handedKey? : Record ω → Option String
  | .accepted _ => none
  | .handed _ key => some key

end Record

def accepted (log : List (Record ω)) : List String := log.filterMap Record.acceptedKey?

def handed (log : List (Record ω)) : List String := log.filterMap Record.handedKey?

namespace Shift

def add (s : Shift ω) (key : String) : Shift ω × List (Record ω) :=
  ({ s with work := s.work.add key }, if s.work.accepts key then [.accepted key] else [])

def get (s : Shift ω) (w : ω) : Shift ω × List (Record ω) :=
  match s.work.get with
  | (.key key, work) => ({ s with work, held := (w, key) :: s.held }, [.handed w key])
  | (.closed, _) | (.nothing, _) => (s, [])

def step [DecidableEq ω] (s : Shift ω) : Move ω → Shift ω × List (Record ω)
  | .add key => s.add key
  | .get w => s.get w
  | .done w key =>
    if (w, key) ∈ s.held then
      ({ s with work := s.work.done key, held := s.held.erase (w, key) }, [])
    else (s, [])
  | .putOff key =>
    ({ s with work := s.work.countRequeue key, delayed := key :: s.delayed }, [])
  | .fire key =>
    if key ∈ s.delayed then add { s with delayed := s.delayed.erase key } key else (s, [])
  | .forget key => ({ s with work := s.work.forget key }, [])
  | .shutDown => ({ s with work := s.work.shutDown }, [])

def play [DecidableEq ω] (moves : List (Move ω)) : Shift ω × List (Record ω) :=
  moves.foldl (fun (s, log) move => ((s.step move).1, log ++ (s.step move).2)) ({}, [])

end Shift

variable {log : List (Record ω)} {k : String}

@[simp]
theorem accepted_concat (log : List (Record ω)) (record : Record ω) :
    accepted (log ++ [record]) = accepted log ++ record.acceptedKey?.toList := by
  cases record <;> simp [accepted, Record.acceptedKey?, List.filterMap_cons]

@[simp]
theorem handed_concat (log : List (Record ω)) (record : Record ω) :
    handed (log ++ [record]) = handed log ++ record.handedKey?.toList := by
  cases record <;> simp [handed, Record.handedKey?, List.filterMap_cons]

/-- An accepted key that was not handed out since. -/
def Owed (log : List (Record ω)) (k : String) : Prop :=
  ∃ before after, log = before ++ .accepted k :: after ∧ k ∉ handed after

theorem not_owed_nil : ¬ Owed ([] : List (Record ω)) k := by
  rintro ⟨before, after, split, -⟩
  simp at split

/-- What is owed after one more record was so before and is not handed out by it, or the record
accepts it. -/
theorem owed_concat {record : Record ω} :
    Owed (log ++ [record]) k ↔ record = .accepted k ∨ Owed log k ∧ record.handedKey? ≠ some k := by
  constructor
  · rintro ⟨before, after, split, unhanded⟩
    rcases List.eq_nil_or_concat after with rfl | ⟨rest, last, rfl⟩
    · rw [List.append_singleton_inj] at split
      exact .inl split.2
    · rw [List.concat_eq_append, ← List.cons_append, ← List.append_assoc,
        List.append_singleton_inj] at split
      obtain ⟨rfl, rfl⟩ := split
      rw [List.concat_eq_append, handed_concat, List.mem_append, not_or] at unhanded
      refine .inr ⟨⟨before, rest, rfl, unhanded.1⟩, fun hands => unhanded.2 ?_⟩
      simp [hands]
  · rintro (rfl | ⟨⟨before, after, rfl, unhanded⟩, other⟩)
    · exact ⟨log, [], rfl, by simp [handed]⟩
    · refine ⟨before, after ++ [record], by simp, ?_⟩
      rw [handed_concat, List.mem_append, not_or]
      exact ⟨unhanded, by simpa using other⟩

structure Sound (s : Shift ω) (log : List (Record ω)) : Prop where
  coherent : Coherent s.work
  held_nodup : (s.held.map (·.2)).Nodup
  mem_processing : ∀ k, k ∈ s.work.processing ↔ k ∈ s.held.map (·.2)
  mem_dirty : ∀ k, k ∈ s.work.dirty ↔ Owed log k
  balance : ∀ k, (accepted log).count k =
    (handed log).count k + if k ∈ s.work.dirty then 1 else 0

variable {s : Shift ω}

theorem sound_empty : Sound ({} : Shift ω) [] where
  coherent := coherent_empty
  held_nodup := by simp
  mem_processing := by simp
  mem_dirty := by simp [not_owed_nil]
  balance := by simp [accepted, handed]

theorem Sound.congr {t : Shift ω} (h : Sound s log) (coherent : Coherent t.work)
    (dirty : t.work.dirty = s.work.dirty) (processing : t.work.processing = s.work.processing)
    (held : t.held = s.held) : Sound t log where
  coherent := coherent
  held_nodup := held ▸ h.held_nodup
  mem_processing := by
    rw [processing, held]
    exact h.mem_processing
  mem_dirty := dirty ▸ h.mem_dirty
  balance := dirty ▸ h.balance

theorem Sound.add (h : Sound s log) (key : String) :
    Sound (s.add key).1 (log ++ (s.add key).2) := by
  cases accept : s.work.accepts key with
  | false => simpa [Shift.add, accept, add_of_rejected accept] using h
  | true =>
    have fresh := (accepts_iff.mp accept).2
    simp only [Shift.add, accept, if_true]
    refine ⟨h.coherent.add key, h.held_nodup, ?_, ?_, ?_⟩
    · simpa using h.mem_processing
    · intro k
      rw [add_dirty accept, List.mem_append, List.mem_singleton, owed_concat, h.mem_dirty,
        Record.accepted.injEq, or_comm, eq_comm]
      simp [Record.handedKey?]
    · intro k
      have old := h.balance k
      by_cases same : k = key
      · subst same
        simp only [fresh, if_false] at old
        simp [add_dirty accept, Record.acceptedKey?, Record.handedKey?, old]
      · have other : ¬ key = k := Ne.symm same
        simp [add_dirty accept, Record.acceptedKey?, Record.handedKey?, old, same, other]

theorem Sound.get (h : Sound s log) (w : ω) :
    Sound (s.get w).1 (log ++ (s.get w).2) := by
  cases got : s.work.get with
  | mk offer next =>
    cases offer with
    | closed => simpa [Shift.get, got] using h
    | nothing => simpa [Shift.get, got] using h
    | key key =>
      obtain ⟨dirty, free⟩ := h.coherent.handed got
      obtain ⟨rest, next_eq⟩ : ∃ rest, next = { s.work with
          queue := rest
          dirty := eraseKey key s.work.dirty
          processing := insertKey key s.work.processing } := by
        rcases get_cases got with ⟨l, rest, -, offer, eq⟩ | ⟨-, offer, -⟩
        · obtain rfl : key = l := by simpa using offer
          exact ⟨rest, eq⟩
        · split at offer <;> simp at offer
      simp only [Shift.get, got]
      refine ⟨h.coherent.get got, ?_, ?_, ?_, ?_⟩
      · rw [List.map_cons, List.nodup_cons]
        exact ⟨fun again => free ((h.mem_processing key).mpr again), h.held_nodup⟩
      · intro k
        simp only [next_eq, mem_insertKey, h.mem_processing, List.map_cons, List.mem_cons]
        exact or_comm
      · intro k
        rw [next_eq, mem_eraseKey, owed_concat, h.mem_dirty]
        simp [Record.handedKey?, eq_comm]
      · intro k
        have old := h.balance k
        by_cases same : k = key
        · subst same
          simp only [dirty, if_true] at old
          simp [next_eq, Record.acceptedKey?, Record.handedKey?, old]
        · have other : ¬ key = k := Ne.symm same
          simp [next_eq, Record.acceptedKey?, Record.handedKey?, old, same, other]

theorem Sound.done [DecidableEq ω] {w : ω} {key : String} (h : Sound s log)
    (mem : (w, key) ∈ s.held) :
    Sound { s with work := s.work.done key, held := s.held.erase (w, key) } log where
  coherent := h.coherent.done ((h.mem_processing key).mpr (List.mem_map_of_mem mem))
  held_nodup := h.held_nodup.sublist ((List.erase_sublist).map _)
  mem_processing := by
    intro k
    have perm := (List.perm_cons_erase mem).map (·.2)
    have nodup : (key :: (s.held.erase (w, key)).map (·.2)).Nodup :=
      perm.nodup_iff.mp h.held_nodup
    have split : k ∈ s.held.map (·.2) ↔ k = key ∨ k ∈ (s.held.erase (w, key)).map (·.2) := by
      rw [perm.mem_iff, List.map_cons, List.mem_cons]
    simp only [WorkQueue.done, mem_eraseKey, h.mem_processing, split]
    constructor
    · rintro ⟨same | left, other⟩
      · exact absurd same other
      · exact left
    · intro left
      exact ⟨.inr left, fun same => (List.nodup_cons.mp nodup).1 (same ▸ left)⟩
  mem_dirty := h.mem_dirty
  balance := h.balance

theorem Sound.step [DecidableEq ω] (h : Sound s log) (move : Move ω) :
    Sound (s.step move).1 (log ++ (s.step move).2) := by
  cases move with
  | add key => exact h.add key
  | get w => exact h.get w
  | done w key =>
    by_cases mem : (w, key) ∈ s.held
    · simpa [Shift.step, mem] using h.done mem
    · simpa [Shift.step, mem] using h
  | putOff key =>
    simpa [Shift.step] using h.congr (t := { s with
      work := s.work.countRequeue key, delayed := key :: s.delayed })
      (h.coherent.countRequeue key) rfl rfl rfl
  | fire key =>
    by_cases mem : key ∈ s.delayed
    · have waiting : Sound { s with delayed := s.delayed.erase key } log :=
        h.congr h.coherent rfl rfl rfl
      simpa [Shift.step, mem] using waiting.add key
    · simpa [Shift.step, mem] using h
  | forget key =>
    simpa [Shift.step] using h.congr (t := { s with work := s.work.forget key })
      (h.coherent.forget key) rfl rfl rfl
  | shutDown =>
    simpa [Shift.step] using h.congr (t := { s with work := s.work.shutDown })
      h.coherent.shutDown rfl rfl rfl

theorem sound_play [DecidableEq ω] (moves : List (Move ω)) :
    Sound (Shift.play moves).1 (Shift.play moves).2 := by
  -- from the end, since the log grows there
  induction moves using List.reverseRecOn with
  | nil => exact sound_empty
  | append_singleton moves move ih =>
    simp only [Shift.play, List.foldl_append, List.foldl_cons, List.foldl_nil] at ih ⊢
    exact ih.step move

/-- Whatever workers, producers and delays do: a key is held by one worker at most; the queue
holds, each once, the keys that are dirty and not held; a key is dirty from the moment it is
accepted until it is handed out; unless the queue is shut down, adding a key leaves it dirty; and
no key is handed out more often than it was accepted. -/
theorem play_loses_no_key [DecidableEq ω] (moves : List (Move ω)) :
    let s := (Shift.play moves).1
    let log := (Shift.play moves).2
    (s.held.map (·.2)).Nodup ∧ s.work.queue.Nodup ∧
      (∀ k, k ∈ s.work.processing ↔ ∃ w, (w, k) ∈ s.held) ∧
      (∀ k, k ∈ s.work.queue ↔ k ∈ s.work.dirty ∧ k ∉ s.work.processing) ∧
      (∀ before k after, log = before ++ .accepted k :: after →
        k ∈ handed after ∨ k ∈ s.work.dirty) ∧
      (∀ k ∈ s.work.dirty, ∃ before after, log = before ++ .accepted k :: after ∧
        k ∉ handed after) ∧
      (∀ k, s.work.isShutDown = false → k ∈ (s.work.add k).dirty) ∧
      ∀ k, (handed log).count k ≤ (accepted log).count k := by
  have h := sound_play moves
  refine ⟨h.held_nodup, h.coherent.queue_nodup, ?_, h.coherent.mem_queue, ?_,
    fun k dirty => (h.mem_dirty k).mp dirty, ?_, ?_⟩
  · intro k
    rw [h.mem_processing]
    simp
  · intro before k after split
    by_cases hands : k ∈ handed after
    · exact .inl hands
    · exact .inr ((h.mem_dirty k).mpr ⟨before, after, split, hands⟩)
  · intro k opened
    exact isAwaited_iff.mp (by simp [isAwaited_add, opened])
  · intro k
    have balance := h.balance k
    omega

end WorkQueue

end Hotplug
