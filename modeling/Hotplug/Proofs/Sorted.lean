import Hotplug.Index
import Hotplug.Plan
import Mathlib.Data.List.Find
/-!
Least keys and sorted keys. A strictly sorted list of keys is determined by its members, the
keys of an index are strictly sorted, and the entry of a key is one of the items with it.
-/
namespace Hotplug

def Ascending (keys : List String) : Prop := keys.Pairwise (· < ·)

theorem lt_of_le_of_ne {a b : String} (le : a ≤ b) (ne : a ≠ b) : a < b := by
  rcases String.le_total b a with ge | le'
  · exact absurd (String.le_antisymm le ge) ne
  · exact String.not_le.mp fun ge => ne (String.le_antisymm le ge)

theorem ascending_nodup {ks : List String} (h : Ascending ks) : ks.Nodup :=
  h.imp fun lt => by rintro rfl; exact String.lt_irrefl _ lt

theorem ascending_unique {ks ls : List String} (hk : Ascending ks) (hl : Ascending ls)
    (same : ∀ k, k ∈ ks ↔ k ∈ ls) : ks = ls := by
  have perm :=
    (List.perm_ext_iff_of_nodup (ascending_nodup hk) (ascending_nodup hl)).mpr same
  refine perm.eq_of_pairwise ?_ hk hl
  intro a b _ _ ab ba
  exact absurd ba (String.lt_asymm ab)

theorem nodup_eraseDups (keys : List String) : keys.eraseDups.Nodup := by
  induction h : keys.length using Nat.strongRecOn generalizing keys with
  | ind n ih =>
    cases keys with
    | nil => simp
    | cons k keys =>
      rw [List.eraseDups_cons, List.nodup_cons]
      refine ⟨by simp, ih _ ?_ _ rfl⟩
      have shorter := List.length_filter_le (fun l => !l == k) keys
      simp only [List.length_cons] at h
      omega

namespace Index

variable {α : Type} {key : α → String} {items : List α} {k : String}

theorem mem_keys : k ∈ keys key items ↔ ∃ a ∈ items, key a = k := by
  simp [keys]

theorem keys_ascending : Ascending (keys key items) := by
  have le : (keys key items).Pairwise fun a b => decide (a ≤ b) = true := by
    refine List.pairwise_mergeSort ?_ ?_ _
    · intro a b c
      simp only [decide_eq_true_eq]
      exact String.le_trans
    · intro a b
      simpa using String.le_total a b
  have ne : (keys key items).Pairwise (· ≠ ·) :=
    (List.mergeSort_perm _ _).nodup_iff.mpr (nodup_eraseDups _)
  refine List.Pairwise.imp₂ ?_ le ne
  intro a b hle hne
  exact lt_of_le_of_ne (by simpa using hle) hne

theorem last?_mem {a : α} (h : last? key items k = some a) : a ∈ items ∧ key a = k := by
  have found := List.mem_of_find?_eq_some h
  have fits := List.find?_some h
  exact ⟨by simpa using found, by simpa using fits⟩

theorem exists_last? (h : k ∈ keys key items) : ∃ a, last? key items k = some a := by
  obtain ⟨a, ha, rfl⟩ := mem_keys.mp h
  rw [← Option.isSome_iff_exists, last?, List.find?_isSome]
  exact ⟨a, by simpa using ha, by simp⟩

theorem last?_append {later : List α} :
    last? key (items ++ later) k = (last? key later k).or (last? key items k) := by
  rw [last?, List.reverse_append, List.find?_append]
  rfl

theorem last?_filter {keep : α → Bool} (same : ∀ a ∈ items, key a = k → keep a = true) :
    last? key (items.filter keep) k = last? key items k := by
  unfold last?
  rw [← List.filter_reverse, List.find?_filter]
  apply List.find?_congr
  intro a mem
  by_cases own : key a = k
  · simp [own, same a (List.mem_reverse.mp mem) own]
  · simp [own]

end Index

namespace Plan

theorem least_le (keys : List String) (k : String) :
    let least := keys.foldl (fun least k => if k < least then k else least) k
    (least = k ∨ least ∈ keys) ∧ least ≤ k ∧ ∀ l ∈ keys, least ≤ l := by
  induction keys generalizing k with
  | nil => exact ⟨.inl rfl, String.le_refl k, by simp⟩
  | cons l keys ih =>
    simp only [List.foldl_cons]
    by_cases less : l < k
    · rw [if_pos less]
      obtain ⟨found, le, all⟩ := ih l
      have below := String.le_trans le (String.not_lt.mp (String.lt_asymm less))
      refine ⟨?_, below, ?_⟩
      · rcases found with eq | mem
        · exact .inr (List.mem_cons.mpr (.inl eq))
        · exact .inr (List.mem_cons_of_mem l mem)
      · intro m hm
        rcases List.mem_cons.mp hm with rfl | hm
        · exact le
        · exact all m hm
    · rw [if_neg less]
      obtain ⟨found, le, all⟩ := ih k
      refine ⟨found.imp id (List.mem_cons_of_mem l), le, ?_⟩
      intro m hm
      rcases List.mem_cons.mp hm with rfl | hm
      · exact String.le_trans le (String.not_lt.mp less)
      · exact all m hm

theorem least?_eq_none {keys : List String} : least? keys = none ↔ keys = [] := by
  cases keys <;> simp [least?]

theorem least?_eq_some {keys : List String} {k : String} :
    least? keys = some k ↔ k ∈ keys ∧ ∀ l ∈ keys, k ≤ l := by
  cases keys with
  | nil => simp [least?]
  | cons j keys =>
    obtain ⟨found, le, all⟩ := least_le keys j
    simp only [least?, Option.some.injEq]
    constructor
    · rintro rfl
      refine ⟨List.mem_cons.mpr found, ?_⟩
      intro l hl
      rcases List.mem_cons.mp hl with rfl | hl
      · exact le
      · exact all l hl
    · rintro ⟨mem, least⟩
      have below := least _ (List.mem_cons.mpr found)
      rcases List.mem_cons.mp mem with rfl | mem
      · exact String.le_antisymm le below
      · exact String.le_antisymm (all k mem) below

end Plan

end Hotplug
