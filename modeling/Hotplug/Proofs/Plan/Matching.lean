import Hotplug.Proofs.Plan.Progress
import Mathlib.Data.List.Count
/-!
A plan as a matching of the requests with the keys of what is attached. A request with an
interface takes its own key, one without takes a key of its network, and no key is taken twice.
The plan adds what its matching leaves unmatched and gives up the keys that nothing takes; no
other matching leaves less of either. Which of a network's keys is taken is not covered.
-/
namespace Hotplug

theorem last_slash_unique {x x' rest rest' : String}
    (h : x ++ "/" ++ rest = x' ++ "/" ++ rest') (clean : Clean rest) (clean' : Clean rest') :
    x = x' ∧ rest = rest' := by
  have chars : rest.toList.reverse ++ '/' :: x.toList.reverse =
      rest'.toList.reverse ++ '/' :: x'.toList.reverse := by
    simpa using congrArg (fun s : String => s.toList.reverse) h
  obtain ⟨tails, heads⟩ := first_slash_unique chars
    (by simpa [Clean] using clean) (by simpa [Clean] using clean')
  constructor
  · exact String.toList_injective (List.reverse_injective heads)
  · exact String.toList_injective (List.reverse_injective tails)

theorem StatusEntry.KeysTell.of_clean {entries : List StatusEntry}
    (clean : ∀ e ∈ entries, Clean e.interface) : KeysTell entries := by
  intro d hd e he key
  exact last_slash_unique key (clean d hd) (clean e he)

namespace Plan

variable {desired : List Attachment} {observed : List StatusEntry}

/-- Which key each request takes, if any. -/
structure Matching (desired : List Attachment) (observed : List StatusEntry)
    (taken : Attachment → Option String) : Prop where
  own : ∀ a ∈ firsts [] desired, a.interface ≠ "" →
    taken a = if a.key ∈ attachedKeys observed then some a.key else none
  network : ∀ a ∈ firsts [] desired, a.interface = "" → ∀ k, taken a = some k →
    ∃ e ∈ attached observed, e.name = a.statusName ∧ e.key = k
  injective : ∀ a ∈ firsts [] desired, ∀ b ∈ firsts [] desired, ∀ k,
    taken a = some k → taken b = some k → a = b

def unmatched (desired : List Attachment) (taken : Attachment → Option String) :
    List Attachment :=
  (firsts [] desired).filter fun a => (taken a).isNone

/-- The keys that no request takes, in their order. -/
def untaken (desired : List Attachment) (observed : List StatusEntry)
    (taken : Attachment → Option String) : List String :=
  (attachedKeys observed).filter fun k => !((firsts [] desired).filterMap taken).contains k

section
variable {taken other : Attachment → Option String}

theorem firsts_nodup {seen : List String} : (firsts seen desired).Nodup :=
  firsts_keys_nodup.of_map Attachment.key

theorem Matching.taken_nodup (m : Matching desired observed taken) :
    ((firsts [] desired).filterMap taken).Nodup := by
  rw [List.Nodup, List.pairwise_filterMap]
  refine firsts_nodup.imp_of_mem ?_
  intro a b ha hb ne k hk l hl same
  subst same
  exact ne (m.injective a ha b hb k hk hl)

theorem Matching.taken_attached (m : Matching desired observed taken) :
    ∀ k ∈ (firsts [] desired).filterMap taken, k ∈ attachedKeys observed := by
  intro k mem
  obtain ⟨a, first, takes⟩ := List.mem_filterMap.mp mem
  by_cases unnamed : a.interface = ""
  · obtain ⟨e, he, -, rfl⟩ := m.network a first unnamed k takes
    exact mem_attachedKeys.mpr ⟨e, he, rfl⟩
  · rw [m.own a first unnamed] at takes
    split at takes
    · rename_i present
      obtain rfl := Option.some.inj takes
      exact present
    · cases takes

theorem attachedKeys_nodup : (attachedKeys observed).Nodup :=
  ascending_nodup Index.keys_ascending

theorem Matching.untaken_length (m : Matching desired observed taken) :
    (untaken desired observed taken).length + ((firsts [] desired).filterMap taken).length =
      (attachedKeys observed).length := by
  have perm : ((attachedKeys observed).filter
      fun k => ((firsts [] desired).filterMap taken).contains k).Perm
        ((firsts [] desired).filterMap taken) := by
    apply (List.perm_ext_iff_of_nodup (attachedKeys_nodup.filter _) m.taken_nodup).mpr
    intro k
    rw [List.mem_filter, List.contains_iff_mem]
    constructor
    · intro both
      exact both.2
    · intro mem
      exact ⟨m.taken_attached k mem, mem⟩
  have split := (attachedKeys observed).length_eq_length_filter_add
    fun k => ((firsts [] desired).filterMap taken).contains k
  unfold untaken
  rw [← perm.length_eq]
  omega

theorem unmatched_length_le
    (better : ∀ a ∈ firsts [] desired, (other a).isSome → (taken a).isSome) :
    (unmatched desired taken).length ≤ (unmatched desired other).length := by
  unfold unmatched
  rw [← List.countP_eq_length_filter, ← List.countP_eq_length_filter]
  apply List.countP_mono_left
  intro a first none
  rw [Option.isNone_iff_eq_none] at none
  cases takes : other a with
  | none => rfl
  | some k =>
    have also := better a first (by simp [takes])
    simp [none] at also

theorem Matching.untaken_length_le (m : Matching desired observed taken)
    (n : Matching desired observed other)
    (better : ∀ a ∈ firsts [] desired, (other a).isSome → (taken a).isSome) :
    (untaken desired observed taken).length ≤ (untaken desired observed other).length := by
  have more : ((firsts [] desired).filterMap other).length ≤
      ((firsts [] desired).filterMap taken).length := by
    rw [List.length_filterMap_eq_countP, List.length_filterMap_eq_countP]
    exact List.countP_mono_left better
  have total := m.untaken_length
  have total' := n.untaken_length
  omega

end

def takes (desired : List Attachment) (observed : List StatusEntry) (a : Attachment) :
    Option String :=
  if a.interface = "" then
    candidate? (attached observed) (fixedClaims desired observed) a.statusName
  else if a.key ∈ attachedKeys observed then some a.key
  else none

theorem mem_fixedClaims_own {a : Attachment} (asked : a ∈ desired) (named : a.interface ≠ "") :
    a.key ∈ fixedClaims desired observed ↔ a.key ∈ attachedKeys observed := by
  rw [mem_fixedClaims, mem_attachedKeys]
  constructor
  · intro both
    exact both.2
  · intro present
    exact ⟨⟨a, asked, named, rfl⟩, present⟩

theorem isUnmet_eq {a : Attachment} (asked : a ∈ desired) :
    isUnmet (attached observed) (fixedClaims desired observed) a =
      (takes desired observed a).isNone := by
  by_cases unnamed : a.interface = ""
  · simp [isUnmet, takes, unnamed]
  · have own : a.key ∈ fixedClaims desired observed ↔ a.key ∈ attachedKeys observed :=
      mem_fixedClaims_own asked unnamed
    by_cases present : a.key ∈ attachedKeys observed <;>
      simp [isUnmet, takes, unnamed, own, present]

section
variable (wd : ∀ a ∈ desired, a.Segmented)
include wd

/-- A fixed claim is the own key of a first request. -/
theorem first_of_fixedClaim {k : String} (fixed : k ∈ fixedClaims desired observed) :
    ∃ a ∈ firsts [] desired, a.interface ≠ "" ∧ a.key = k ∧ k ∈ attachedKeys observed := by
  obtain ⟨⟨b, hb, named, key⟩, present⟩ := mem_fixedClaims.mp fixed
  obtain ⟨a, first, same⟩ : ∃ a ∈ firsts [] desired, a.key = b.key := exists_first hb (by simp)
  have alike := Attachment.eq_of_key (wd a (mem_of_mem_firsts first).1) (wd b hb) same
  refine ⟨a, first, ?_, same.trans key, mem_attachedKeys.mpr present⟩
  rw [alike.2]
  exact named

theorem mem_claims {k : String} :
    k ∈ claims desired observed ↔ ∃ a ∈ firsts [] desired, takes desired observed a = some k := by
  unfold claims
  rw [List.mem_append, List.mem_filterMap, ← exists_pick_firsts wd]
  constructor
  · rintro (fixed | ⟨a, first, pick⟩)
    · obtain ⟨a, first, named, rfl, present⟩ := first_of_fixedClaim wd fixed
      exact ⟨a, first, by simp [takes, named, present]⟩
    · by_cases unnamed : a.interface = ""
      · exact ⟨a, first, by simpa [takes, pick?, unnamed] using pick⟩
      · simp [pick?, unnamed] at pick
  · rintro ⟨a, first, claim⟩
    by_cases unnamed : a.interface = ""
    · exact .inr ⟨a, first, by simpa [takes, pick?, unnamed] using claim⟩
    · left
      simp only [takes, unnamed, if_false] at claim
      split at claim
      · rename_i present
        obtain rfl := Option.some.inj claim
        exact (mem_fixedClaims_own (mem_of_mem_firsts first).1 unnamed).mpr present
      · cases claim

theorem untaken_eq_stale : untaken desired observed (takes desired observed) =
    stale desired observed := by
  apply List.filter_congr
  intro k _
  have iff : k ∈ claims desired observed ↔
      ∃ a ∈ firsts [] desired, takes desired observed a = some k := mem_claims wd
  rw [← List.mem_filterMap] at iff
  simp only [List.contains_eq_mem, iff]

theorem matching_takes (tell : StatusEntry.KeysTell (attached observed)) :
    Matching desired observed (takes desired observed) where
  own := by
    intro a _ named
    simp [takes, named]
  network := by
    intro a _ unnamed k claim
    simp only [takes, unnamed, if_true] at claim
    obtain ⟨⟨e, he, name, key, -⟩, -⟩ := candidate?_eq_some.mp claim
    exact ⟨e, he, name, key⟩
  injective := by
    -- a request without an interface only takes keys that no request with one asks for
    have apart {a b : Attachment} {k : String} (ha : a ∈ desired) (named : a.interface ≠ "")
        (unnamed : b.interface = "") (one : takes desired observed a = some k)
        (two : takes desired observed b = some k) : False := by
      simp only [takes, named, unnamed, if_true, if_false] at one two
      split at one
      · rename_i present
        obtain rfl := Option.some.inj one
        obtain ⟨⟨e, -, -, -, free⟩, -⟩ := candidate?_eq_some.mp two
        exact free ((mem_fixedClaims_own ha named).mpr present)
      · cases one
    intro a ha b hb k one two
    have asked := (mem_of_mem_firsts ha).1
    have asked' := (mem_of_mem_firsts hb).1
    apply first_unique ha hb
    by_cases unnamed : a.interface = "" <;> by_cases unnamed' : b.interface = ""
    · simp only [takes, unnamed, unnamed', if_true] at one two
      obtain ⟨⟨d, hd, network, key, -⟩, -⟩ := candidate?_eq_some.mp one
      obtain ⟨⟨e, he, network', key', -⟩, -⟩ := candidate?_eq_some.mp two
      have same := (tell d hd e he (key.trans key'.symm)).1
      rw [Attachment.key_of_no_interface (wd a asked).ns_nonempty unnamed,
        Attachment.key_of_no_interface (wd b asked').ns_nonempty unnamed', ← network, ← network',
        same]
    · exact (apart asked' unnamed' unnamed two one).elim
    · exact (apart asked unnamed unnamed' one two).elim
    · simp only [takes, unnamed, unnamed', if_false, Option.ite_none_right_eq_some,
        Option.some.injEq] at one two
      exact one.2.trans two.2.symm

/-- Whatever takes a key in some matching takes one in the plan. -/
theorem takes_of_matching {other : Attachment → Option String}
    (m : Matching desired observed other) {a : Attachment} (first : a ∈ firsts [] desired)
    (matched : (other a).isSome) : (takes desired observed a).isSome := by
  by_cases unnamed : a.interface = ""
  · obtain ⟨k, claim⟩ := Option.isSome_iff_exists.mp matched
    obtain ⟨e, he, name, rfl⟩ := m.network a first unnamed k claim
    rw [← Option.not_isNone, Bool.not_eq_true', ← Bool.not_eq_true]
    intro none
    simp only [takes, unnamed, if_true, Option.isNone_iff_eq_none] at none
    -- the key would be fixed, and taken by the request that fixes it
    have fixed := candidate?_eq_none.mp none e he name
    obtain ⟨b, first', named, key, present⟩ := first_of_fixedClaim wd fixed
    have own : other b = some e.key := by
      rw [m.own b first' named, key, if_pos present]
    obtain rfl := m.injective a first b first' e.key claim own
    exact named unnamed
  · rw [m.own a first unnamed] at matched
    simpa [takes, unnamed] using matched

end

theorem entries_of_stale :
    ∃ es : List StatusEntry, (∀ e ∈ es, e ∈ attached observed) ∧
      es.map StatusEntry.key = stale desired observed ∧
      (stale desired observed).filterMap (removalOf? observed) = es.map removal := by
  have all : ∀ ks : List String, (∀ k ∈ ks, k ∈ attachedKeys observed) →
      ∃ es : List StatusEntry, (∀ e ∈ es, e ∈ attached observed) ∧ es.map StatusEntry.key = ks ∧
        ks.filterMap (removalOf? observed) = es.map removal := by
    intro ks inside
    induction ks with
    | nil => exact ⟨[], by simp, rfl, rfl⟩
    | cons k ks ih =>
      obtain ⟨es, mem, keys, removals⟩ := ih fun l hl => inside l (List.mem_cons_of_mem k hl)
      obtain ⟨e, found⟩ := Index.exists_last? (inside k (by simp))
      obtain ⟨he, key⟩ := Index.last?_mem found
      refine ⟨e :: es, ?_, ?_, ?_⟩
      · intro d hd
        rcases List.mem_cons.mp hd with rfl | later
        · exact he
        · exact mem d later
      · rw [List.map_cons, key, keys]
      · simp [removalOf?, found, ← removals]
  apply all
  intro k hk
  exact (List.mem_filter.mp hk).1

theorem mem_untaken {taken : Attachment → Option String} {k : String} :
    k ∈ untaken desired observed taken ↔
      (∃ e ∈ attached observed, e.name ++ "/" ++ e.interface = k) ∧
        ∀ a ∈ firsts [] desired, taken a ≠ some k := by
  unfold untaken
  rw [List.mem_filter, mem_attachedKeys]
  simp [StatusEntry.key]

theorem untaken_ascending (taken : Attachment → Option String) :
    Ascending (untaken desired observed taken) :=
  Index.keys_ascending.sublist List.filter_sublist

/-- A plan comes from a matching: it adds what takes nothing, in document order, and gives up,
in key order, one element for each key that nothing takes, of the name and interface that make
up the key. Every other matching leaves at least as much of both. -/
theorem compute_is_least_matching
    (spaced : ∀ a ∈ desired, a.ns ≠ "") (segments : ∀ a ∈ desired, Clean a.ns ∧ Clean a.name)
    (interfaces : ∀ e ∈ attached observed, Clean e.interface)
    (names : ∀ e ∈ attached observed, ¬ e.Slashed) :
    ∃ taken, Matching desired observed taken ∧
      (compute desired observed).add = unmatched desired taken ∧
      (compute desired observed).remove.map (fun a => a.statusName ++ "/" ++ a.interface) =
        untaken desired observed taken ∧
      Ascending (untaken desired observed taken) ∧
      (∀ k, k ∈ untaken desired observed taken ↔
        (∃ e ∈ attached observed, e.name ++ "/" ++ e.interface = k) ∧
          ∀ a ∈ firsts [] desired, taken a ≠ some k) ∧
      (∀ a ∈ (compute desired observed).remove, ∃ e ∈ attached observed,
        a.statusName = e.name ∧ a.interface = e.interface) ∧
      ∀ other, Matching desired observed other →
        (compute desired observed).add.length ≤ (unmatched desired other).length ∧
          (compute desired observed).remove.length ≤ (untaken desired observed other).length := by
  have wd : ∀ a ∈ desired, a.Segmented :=
    fun a ha => ⟨spaced a ha, (segments a ha).1, (segments a ha).2⟩
  have tell := StatusEntry.KeysTell.of_clean interfaces
  have matching := matching_takes wd tell
  have add : (compute desired observed).add = unmatched desired (takes desired observed) := by
    rw [compute_add tell wd]
    apply List.filter_congr
    intro a first
    exact isUnmet_eq (mem_of_mem_firsts first).1
  obtain ⟨es, mem, keys, removals⟩ := @entries_of_stale desired observed
  have remove : (compute desired observed).remove = es.map removal := by
    rw [compute_remove tell wd, removals]
  have untaken : stale desired observed = Plan.untaken desired observed (takes desired observed) :=
    (untaken_eq_stale wd).symm
  have given : (compute desired observed).remove.map (fun a => a.statusName ++ "/" ++ a.interface) =
      Plan.untaken desired observed (takes desired observed) := by
    rw [remove, List.map_map, ← untaken, ← keys]
    apply List.map_congr_left
    intro e he
    exact removalKey_of_not_slashed (names e (mem e he))
  refine ⟨takes desired observed, matching, add, given, untaken_ascending _,
    fun k => mem_untaken, ?_, ?_⟩
  · intro a gone
    rw [remove] at gone
    obtain ⟨e, he, rfl⟩ := List.mem_map.mp gone
    exact ⟨e, mem e he, removal_statusName_of_not_slashed (names e (mem e he)),
      removal_interface e⟩
  · intro other m
    have better : ∀ a ∈ firsts [] desired, (other a).isSome →
        (takes desired observed a).isSome :=
      fun a first => takes_of_matching wd m first
    constructor
    · rw [add]
      exact unmatched_length_le better
    · have length : (compute desired observed).remove.length =
          (Plan.untaken desired observed (takes desired observed)).length := by
        rw [← given, List.length_map]
      rw [length]
      exact matching.untaken_length_le m better

/-- Two requests and two keys are left, and no matching leaves fewer. -/
theorem sample_needs_four_operations :
    (∀ a ∈ sampleRequests, a.ns ≠ "") ∧ (∀ a ∈ sampleRequests, Clean a.ns ∧ Clean a.name) ∧
      (∀ e ∈ attached sampleStatus, Clean e.interface) ∧
      (∀ e ∈ attached sampleStatus, ¬ e.Slashed) ∧
      (∃ taken, Matching sampleRequests sampleStatus taken ∧
        unmatched sampleRequests taken = [{ ns := "default", name := "a" },
          { ns := "default", name := "b", interface := "eth5" }] ∧
        untaken sampleRequests sampleStatus taken = ["default/c/eth3", "default/c/eth4"]) ∧
      ∀ other, Matching sampleRequests sampleStatus other →
        2 ≤ (unmatched sampleRequests other).length ∧
          2 ≤ (untaken sampleRequests sampleStatus other).length := by
  have spaced : ∀ a ∈ sampleRequests, a.ns ≠ "" := by simp [sampleRequests]
  have segments : ∀ a ∈ sampleRequests, Clean a.ns ∧ Clean a.name := by
    simp [sampleRequests, Clean]
  have interfaces : ∀ e ∈ attached sampleStatus, Clean e.interface := by
    simp [attached, sampleStatus, Clean]
  have names : ∀ e ∈ attached sampleStatus, ¬ e.Slashed := by
    simp [attached, sampleStatus, StatusEntry.Slashed]
  refine ⟨spaced, segments, interfaces, names, ?_⟩
  obtain ⟨taken, matching, add, keys, -, -, -, least⟩ :=
    compute_is_least_matching spaced segments interfaces names
  rw [compute_sample] at add keys least
  exact ⟨⟨taken, matching, add.symm, keys.symm⟩, least⟩

end Plan

end Hotplug
