import Hotplug.Proofs.Plan.Progress
import Mathlib.Data.List.Pairwise
/-!
A status that is merged anew after every step, an answer or an attachment that is given up. In any
order of the steps it ends with what was there and is not given up, and with what the answers
report that no later step strikes out. One merge for all steps comes to the same unless a step
strikes out what an earlier one reported. How a status is written between the steps is not covered.
-/
namespace Hotplug.Status

variable {current entries : List StatusEntry} {added : List Outcome} {removed : List Attachment}
  {steps : List (Outcome ⊕ Attachment)} {o : Outcome} {a : Attachment} {e : StatusEntry}

/-- What a merge records of some outcomes. -/
def reported (added : List Outcome) : List StatusEntry :=
  (added.filter (·.isValid)).filterMap (·.reported?)

def strike (removed : List Attachment) (entries : List StatusEntry) : List StatusEntry :=
  entries.filter fun e => e.isDefault || !(gone removed).contains e.key

theorem merge_eq : merge current added removed = strike removed current ++ reported added := rfl

theorem mem_reported : e ∈ reported added ↔
    ∃ o ∈ added, o.isValid = true ∧ o.reported? = some e := by
  simp only [reported, List.mem_filterMap, List.mem_filter, and_assoc]

theorem reported_append (added later : List Outcome) :
    reported (added ++ later) = reported added ++ reported later := by
  simp [reported]

@[simp]
theorem strike_nil (entries : List StatusEntry) : strike [] entries = entries := by
  simp [strike, gone]

theorem strike_append (removed : List Attachment) (entries later : List StatusEntry) :
    strike removed (entries ++ later) = strike removed entries ++ strike removed later :=
  List.filter_append entries later

theorem strike_strike (first second : List Attachment) (entries : List StatusEntry) :
    strike second (strike first entries) = strike (first ++ second) entries := by
  unfold strike
  rw [List.filter_filter]
  apply List.filter_congr
  intro e _
  cases e.isDefault with
  | true => rfl
  | false => simp [gone, Bool.and_comm]

theorem strike_perm {other : List Attachment} (perm : removed.Perm other) :
    strike removed entries = strike other entries := by
  have same (k : String) : k ∈ gone removed ↔ k ∈ gone other := (perm.map removalKey).mem_iff
  simp [strike, same]

theorem strike_length_le : (strike removed entries).length ≤ entries.length :=
  List.length_filter_le _ entries

/-- No reported entry belongs to the default network, so each one can be struck out. -/
theorem strike_reported_eq_iff : strike removed (reported added) = reported added ↔
    ∀ a ∈ removed, ∀ e ∈ reported added, e.key ≠ removalKey a := by
  have own : ∀ e ∈ reported added, e.isDefault = false := by
    intro e mem
    obtain ⟨o, -, -, entry⟩ := mem_reported.mp mem
    exact (Outcome.reported?_name entry).2
  rw [strike, List.filter_eq_self]
  constructor
  · intro kept a mem e entry same
    have out := kept e entry
    rw [own e entry, Bool.false_or, Bool.not_eq_true', List.contains_eq_mem,
      decide_eq_false_iff_not] at out
    exact out (List.mem_map.mpr ⟨a, mem, same.symm⟩)
  · intro apart e entry
    rw [own e entry, Bool.false_or, Bool.not_eq_true', List.contains_eq_mem,
      decide_eq_false_iff_not]
    intro struck
    obtain ⟨a, mem, same⟩ := List.mem_map.mp struck
    exact apart a mem e entry same.symm

def mergeStep (current : List StatusEntry) : Outcome ⊕ Attachment → List StatusEntry
  | .inl o => merge current [o] []
  | .inr a => merge current [] [a]

def answers (steps : List (Outcome ⊕ Attachment)) : List Outcome := steps.filterMap Sum.getLeft?

def givenUp (steps : List (Outcome ⊕ Attachment)) : List Attachment :=
  steps.filterMap Sum.getRight?

/-- What the steps report that no later one strikes out. -/
def unstruck : List (Outcome ⊕ Attachment) → List StatusEntry
  | [] => []
  | .inl o :: later => strike (givenUp later) (reported [o]) ++ unstruck later
  | .inr _ :: later => unstruck later

theorem foldl_mergeStep (current : List StatusEntry) (steps : List (Outcome ⊕ Attachment)) :
    steps.foldl mergeStep current = strike (givenUp steps) current ++ unstruck steps := by
  induction steps generalizing current with
  | nil => simp [givenUp, unstruck]
  | cons step later ih =>
    rw [List.foldl_cons, ih]
    cases step with
    | inl o =>
      have same : givenUp (.inl o :: later) = givenUp later := rfl
      rw [mergeStep, merge_eq, strike_nil, strike_append, List.append_assoc, same, unstruck]
    | inr a =>
      have first : givenUp (.inr a :: later) = [a] ++ givenUp later := rfl
      have none : reported [] = [] := rfl
      rw [mergeStep, merge_eq, none, List.append_nil, strike_strike, first, unstruck]

/-- Whether the second step leaves what the first one reports. -/
def Spared : Outcome ⊕ Attachment → Outcome ⊕ Attachment → Prop
  | .inl o, .inr a => ∀ e ∈ reported [o], e.key ≠ removalKey a
  | _, _ => True

theorem unstruck_length_le : (unstruck steps).length ≤ (reported (answers steps)).length := by
  induction steps with
  | nil => exact Nat.le_refl 0
  | cons step later ih =>
    cases step with
    | inl o =>
      have first : answers (.inl o :: later) = [o] ++ answers later := rfl
      have fewer : (strike (givenUp later) (reported [o])).length ≤ (reported [o]).length :=
        strike_length_le
      rw [unstruck, first, reported_append, List.length_append, List.length_append]
      omega
    | inr a => exact ih

theorem spared_all : (∀ step ∈ steps, Spared (.inl o) step) ↔
    ∀ a ∈ givenUp steps, ∀ e ∈ reported [o], e.key ≠ removalKey a := by
  constructor
  · intro all a mem
    obtain ⟨step, here, right⟩ := List.mem_filterMap.mp mem
    obtain rfl : step = .inr a := Sum.getRight?_eq_some_iff.mp right
    exact all (.inr a) here
  · intro all step here
    cases step with
    | inl o' => trivial
    | inr a => exact all a (List.mem_filterMap.mpr ⟨.inr a, here, rfl⟩)

theorem unstruck_eq_iff : unstruck steps = reported (answers steps) ↔ steps.Pairwise Spared := by
  induction steps with
  | nil => simp [unstruck, answers, reported]
  | cons step later ih =>
    rw [List.pairwise_cons, ← ih]
    cases step with
    | inl o =>
      have first : answers (.inl o :: later) = [o] ++ answers later := rfl
      rw [unstruck, first, reported_append, spared_all, ← strike_reported_eq_iff]
      constructor
      · intro same
        -- neither part is longer than what it is to equal
        have fewer : (strike (givenUp later) (reported [o])).length ≤ (reported [o]).length :=
          strike_length_le
        have fewer' : (unstruck later).length ≤ (reported (answers later)).length :=
          unstruck_length_le
        have total := congrArg List.length same
        rw [List.length_append, List.length_append] at total
        exact List.append_inj same (by omega)
      · rintro ⟨head, tail⟩
        rw [head, tail]
    | inr a =>
      have all : ∀ step ∈ later, Spared (.inr a) step := fun _ _ => trivial
      exact (and_iff_right all).symm

/-- One merge for all steps comes to the same as one for each step exactly if no step strikes out
what an earlier one reported. -/
theorem foldl_mergeStep_eq_iff :
    steps.foldl mergeStep current = merge current (answers steps) (givenUp steps) ↔
      steps.Pairwise Spared := by
  rw [foldl_mergeStep, merge_eq, List.append_cancel_left_eq, unstruck_eq_iff]

theorem spared_of_apart
    (apart : ∀ a ∈ givenUp steps, ∀ e ∈ reported (answers steps), e.key ≠ removalKey a) :
    steps.Pairwise Spared := by
  apply List.pairwise_of_forall_mem_list
  intro earlier first later second
  cases earlier with
  | inr a => trivial
  | inl o =>
    cases later with
    | inl o' => trivial
    | inr a =>
      intro e entry
      obtain ⟨o', mem, valid, found⟩ := mem_reported.mp entry
      obtain rfl := List.mem_singleton.mp mem
      have asked : a ∈ givenUp steps := List.mem_filterMap.mpr ⟨.inr a, second, rfl⟩
      have answered : o' ∈ answers steps := List.mem_filterMap.mpr ⟨.inl o', first, rfl⟩
      exact apart a asked e (mem_reported.mpr ⟨o', answered, valid, found⟩)

/-- If no outcome reports a key that is given up, the steps may be taken in any order that keeps
the outcomes in theirs. -/
theorem merge_step_by_step (current : List StatusEntry) {added : List Outcome}
    {removed : List Attachment} (apart : ∀ a ∈ removed, ∀ e ∈ reported added, e.key ≠ removalKey a)
    {steps : List (Outcome ⊕ Attachment)} (in_order : answers steps = added)
    (in_any_order : (givenUp steps).Perm removed) :
    steps.foldl mergeStep current = merge current added removed := by
  subst in_order
  have spared := spared_of_apart fun a mem => apart a (in_any_order.mem_iff.mp mem)
  rw [foldl_mergeStep_eq_iff.mpr spared, merge_eq, merge_eq, strike_perm in_any_order]

/-! The default network is asked to go, and one answer holds no result. -/

def sampleAnswers : List Outcome :=
  Plan.sampleAdded ++
    [{ attachment := { ns := "default", name := "b", interface := "eth5" }, response := none }]

def sampleGivenUp : List Attachment :=
  { name := "cluster", interface := "eth0" } :: Plan.sampleRemoved

def sampleSteps : List (Outcome ⊕ Attachment) :=
  Plan.sampleRemoved.map .inr ++ sampleAnswers.map .inl ++
    [.inr { name := "cluster", interface := "eth0" }]

theorem sample_step_by_step :
    (∀ a ∈ sampleGivenUp, ∀ e ∈ reported sampleAnswers, e.key ≠ removalKey a) ∧
      answers sampleSteps = sampleAnswers ∧ (givenUp sampleSteps).Perm sampleGivenUp ∧
      sampleSteps.foldl mergeStep Plan.sampleStatus =
        [{ name := "cluster", interface := "eth0", isDefault := true },
          { name := "default/a", interface := "eth1" },
          { name := "default/c", interface := "eth4" },
          { name := "default/a", interface := "net1" }] := by
  have apart : ∀ a ∈ sampleGivenUp, ∀ e ∈ reported sampleAnswers, e.key ≠ removalKey a := by
    decide +kernel
  have swapped : (givenUp sampleSteps).Perm sampleGivenUp := by decide +kernel
  refine ⟨apart, rfl, swapped, ?_⟩
  rw [merge_step_by_step Plan.sampleStatus apart rfl swapped]
  decide +kernel

end Hotplug.Status
