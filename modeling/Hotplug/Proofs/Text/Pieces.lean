import Hotplug.Text.Basic
import Mathlib.Data.List.TakeWhile
/-!
Texts in pieces. A text is cut at every separator and nowhere else, and trimming takes blanks off
both of its ends and nothing more. Which characters are blanks is not covered.
-/
namespace Hotplug.Text

variable {separator : Char} {s t before after : List Char}

theorem splitOnce_clean (clean : separator ∉ s) : splitOnce separator s = none := by
  induction s with
  | nil => rfl
  | cons c s ih =>
    simp only [List.mem_cons, not_or] at clean
    obtain ⟨ne, rest⟩ := clean
    simp [splitOnce, Ne.symm ne, ih rest]

theorem splitOnce_append (clean : separator ∉ before) (after : List Char) :
    splitOnce separator (before ++ separator :: after) = some (before, after) := by
  induction before with
  | nil => simp [splitOnce]
  | cons c before ih =>
    simp only [List.mem_cons, not_or] at clean
    obtain ⟨ne, rest⟩ := clean
    simp [splitOnce, Ne.symm ne, ih rest]

theorem splitOnce_eq_some (found : splitOnce separator s = some (before, after)) :
    s = before ++ separator :: after := by
  induction s generalizing before with
  | nil => cases found
  | cons c s ih =>
    rw [splitOnce] at found
    split at found
    · rename_i slash
      obtain ⟨rfl, rfl⟩ := Prod.mk.inj (Option.some.inj found)
      rw [slash, List.nil_append]
    · obtain ⟨⟨front, back⟩, inner, same⟩ := Option.map_eq_some_iff.mp found
      obtain ⟨rfl, rfl⟩ := Prod.mk.inj same
      rw [ih inner, List.cons_append]

theorem splitAt_eq_splitOn (separator : Char) (s : List Char) :
    splitAt separator s = s.splitOn separator := by
  induction s with
  | nil => rfl
  | cons c s ih =>
    have head : splitAt separator (c :: s) = if c = separator then [] :: splitAt separator s
        else (splitAt separator s).modifyHead (c :: ·) := by
      cases pieces : splitAt separator s with
      | nil => exact absurd pieces (splitAt_ne_nil separator s)
      | cons piece more =>
        unfold splitAt at pieces ⊢
        rw [List.foldr_cons, pieces]
        rfl
    rw [head, ih, List.splitOn_cons_eq_if_modifyHead]
    simp only [beq_iff_eq]

theorem intercalate_splitAt (separator : Char) (s : List Char) :
    [separator].intercalate (splitAt separator s) = s := by
  rw [splitAt_eq_splitOn, List.intercalate_splitOn]

theorem splitAt_clean (clean : separator ∉ s) : splitAt separator s = [s] := by
  rw [splitAt_eq_splitOn, List.splitOn_eq_singleton clean]

theorem splitAt_append (clean : separator ∉ before) (after : List Char) :
    splitAt separator (before ++ separator :: after) = before :: splitAt separator after := by
  rw [splitAt_eq_splitOn, List.splitOn_append_cons_self_of_not_mem clean, splitAt_eq_splitOn]

theorem splitAt_map {f : Char → Char} (kept : ∀ c, f c = separator ↔ c = separator)
    (s : List Char) : splitAt separator (s.map f) = (splitAt separator s).map (List.map f) := by
  rw [splitAt_eq_splitOn, splitAt_eq_splitOn]
  induction s with
  | nil => rfl
  | cons c s ih =>
    rw [List.map_cons, List.splitOn_cons_eq_if_modifyHead, List.splitOn_cons_eq_if_modifyHead, ih]
    by_cases same : c = separator
    · simp [same, (kept separator).mpr rfl]
    · have other : f c ≠ separator := fun eq => same ((kept c).mp eq)
      cases pieces : s.splitOn separator with
      | nil => simp [same, other]
      | cons piece more => simp [same, other]

theorem mem_intercalate {c : Char} {pieces : List (List Char)}
    (mem : c ∈ [separator].intercalate pieces) : c = separator ∨ ∃ piece ∈ pieces, c ∈ piece := by
  induction pieces with
  | nil => cases mem
  | cons piece pieces ih =>
    cases pieces with
    | nil =>
      rw [List.intercalate_singleton] at mem
      exact .inr ⟨piece, List.mem_singleton_self piece, mem⟩
    | cons next more =>
      rw [List.intercalate_cons_cons, List.append_assoc, List.mem_append, List.mem_append] at mem
      rcases mem with first | between | later
      · exact .inr ⟨piece, List.mem_cons_self, first⟩
      · exact .inl (List.mem_singleton.mp between)
      · rcases ih later with same | ⟨found, among, inside⟩
        · exact .inl same
        · exact .inr ⟨found, List.mem_cons_of_mem piece among, inside⟩

theorem intercalate_map (f : Char → Char) (separator : Char) (pieces : List (List Char)) :
    ([separator].intercalate pieces).map f = [f separator].intercalate (pieces.map (List.map f)) := by
  induction pieces with
  | nil => rfl
  | cons piece pieces ih =>
    cases pieces with
    | nil => simp
    | cons next more =>
      simp only [List.map_cons, List.map_append, List.map_nil, List.intercalate_cons_cons] at ih ⊢
      rw [ih]

def Padded (s t : List Char) : Prop :=
  ∃ front back, (∀ c ∈ front, isBlank c = true) ∧ (∀ c ∈ back, isBlank c = true) ∧
    s = front ++ (t ++ back)

theorem trimStart_front {front : List Char} (blank : ∀ c ∈ front, isBlank c = true)
    (s : List Char) : trimStart (front ++ s) = trimStart s :=
  List.dropWhile_append_of_pos blank

theorem trim_back {back : List Char} (blank : ∀ c ∈ back, isBlank c = true) (s : List Char) :
    trim (s ++ back) = trim s := by
  have reversed : ∀ c ∈ back.reverse, isBlank c = true := by simpa using blank
  by_cases all : trimStart s = []
  · have none : trimStart (s ++ back) = [] := by
      apply List.dropWhile_eq_nil_iff.mpr
      exact List.forall_mem_append.mpr ⟨List.dropWhile_eq_nil_iff.mp all, blank⟩
    rw [trim, trim, none, all]
  · have kept : trimStart (s ++ back) = trimStart s ++ back := by
      unfold trimStart at all ⊢
      rw [List.dropWhile_append, if_neg (by simpa using all)]
    rw [trim, trim, kept, List.reverse_append, trimStart_front reversed]

theorem Padded.trim_eq (h : Padded s t) : trim s = trim t := by
  obtain ⟨front, back, blank, blank', rfl⟩ := h
  calc trim (front ++ (t ++ back))
      = trim (t ++ back) := by rw [trim, trimStart_front blank, trim]
    _ = trim t := trim_back blank' t

theorem padded_trim (s : List Char) : Padded s (trim s) := by
  have start (s : List Char) :
      ∃ front, (∀ c ∈ front, isBlank c = true) ∧ s = front ++ trimStart s :=
    ⟨s.takeWhile isBlank, fun _ => List.mem_takeWhile_imp, List.takeWhile_append_dropWhile.symm⟩
  obtain ⟨front, blank, eq⟩ := start s
  obtain ⟨back, blank', eq'⟩ := start (trimStart s).reverse
  refine ⟨front, back.reverse, blank, by simpa using blank', ?_⟩
  rw [trim, ← List.reverse_append, ← eq', List.reverse_reverse]
  exact eq

theorem trim_eq_nil : trim s = [] ↔ ∀ c ∈ s, isBlank c = true := by
  constructor
  · intro none
    obtain ⟨front, back, blank, blank', eq⟩ := padded_trim s
    rw [none, List.nil_append] at eq
    rw [eq]
    exact List.forall_mem_append.mpr ⟨blank, blank'⟩
  · intro blank
    exact trim_back blank []

section
variable (printed : isBlank separator = false)
include printed

theorem not_mem_of_blank {pad : List Char} (blank : ∀ c ∈ pad, isBlank c = true) :
    separator ∉ pad := by
  intro mem
  rw [blank separator mem] at printed
  cases printed

theorem Padded.count_eq (h : Padded s t) : s.count separator = t.count separator := by
  obtain ⟨front, back, blank, blank', rfl⟩ := h
  rw [List.count_append, List.count_append, List.count_eq_zero.mpr (not_mem_of_blank printed blank),
    List.count_eq_zero.mpr (not_mem_of_blank printed blank'), Nat.zero_add, Nat.add_zero]

/-- How a text with blanks around it is cut: not at all, once, or more often. The pieces keep
the blanks at the text's own ends. -/
inductive Cut (separator : Char) (s t : List Char) : Prop
  | none (count : s.count separator = 0) (whole : splitOnce separator s = none)
      (pieces : splitAt separator t = [t])
  | once {before after front back : List Char} (count : s.count separator = 1)
      (halves : splitOnce separator s = some (before, after))
      (pieces : splitAt separator t = [front, back])
      (padded : Padded before front) (padded' : Padded after back)
  | more {first second third : List Char} {others : List (List Char)}
      (count : 1 < s.count separator)
      (pieces : splitAt separator t = first :: second :: third :: others)

theorem Padded.cut (h : Padded s t) : Cut separator s t := by
  have count := h.count_eq printed
  obtain ⟨pad, pad', blank, blank', rfl⟩ := h
  have clean := not_mem_of_blank printed blank
  have clean' := not_mem_of_blank printed blank'
  by_cases present : separator ∈ t
  · obtain ⟨front, back, rfl, clean_front⟩ := List.eq_append_cons_of_mem present
    have none := List.count_eq_zero.mpr clean_front
    have halves : splitOnce separator (pad ++ (front ++ separator :: back ++ pad')) =
        some (pad ++ front, back ++ pad') := by
      have all : separator ∉ pad ++ front := by simp [clean, clean_front]
      rw [← splitOnce_append all (back ++ pad')]
      simp only [List.append_assoc, List.cons_append]
    by_cases again : separator ∈ back
    · obtain ⟨middle, last, rfl, clean_middle⟩ := List.eq_append_cons_of_mem again
      have pieces : splitAt separator (front ++ separator :: (middle ++ separator :: last)) =
          front :: middle :: splitAt separator last := by
        rw [splitAt_append clean_front, splitAt_append clean_middle]
      cases rest : splitAt separator last with
      | nil => exact absurd rest (splitAt_ne_nil separator last)
      | cons third others =>
        refine .more ?_ (pieces.trans (by rw [rest]))
        rw [count, List.count_append, List.count_cons_self, List.count_append,
          List.count_cons_self]
        omega
    · have padded : Padded (pad ++ front) front := ⟨pad, [], blank, by simp, by simp⟩
      have padded' : Padded (back ++ pad') back := ⟨[], pad', by simp, blank', rfl⟩
      refine .once ?_ halves ?_ padded padded'
      · rw [count, List.count_append, List.count_cons_self, none,
          List.count_eq_zero.mpr again]
      · rw [splitAt_append clean_front, splitAt_clean again]
  · refine .none (count.trans (List.count_eq_zero.mpr present)) (splitOnce_clean ?_)
      (splitAt_clean present)
    simp [clean, clean', present]

end

end Hotplug.Text
