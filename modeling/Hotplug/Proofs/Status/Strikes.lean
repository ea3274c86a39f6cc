import Hotplug.Proofs.Plan.Greedy
import Hotplug.Proofs.Status.Merge
import Mathlib.Data.Finset.Max
/-!
What giving attachments up strikes out of a status. The attachment that is made from an entry
strikes the entry's own key, unless the entry's namespace is given and empty: then the slash in
front of the name is lost, and another key is struck. What is added is not covered.
-/
namespace Hotplug

open Plan Status

variable {desired : List Attachment} {observed : List StatusEntry}
  {taken : Attachment → Option String} {d e : StatusEntry}

/-- The slash in front of the name is missing in the key that is struck. -/
theorem StatusEntry.Slashed.key_eq (slashed : e.Slashed) :
    e.key = "/" ++ removalKey (removal e) := by
  obtain ⟨rest, chars⟩ := List.head?_eq_some_iff.mp slashed
  have name : e.name = "/" ++ String.ofList rest := by
    apply String.toList_injective
    simp [chars]
  have cut : removal e = { name := String.ofList rest, interface := e.interface } := by
    unfold removal
    rw [chars]
    simp [Text.splitOnce]
  rw [cut, StatusEntry.key, name]
  simp [removalKey, Attachment.statusName, String.append_assoc]

/-- The entry stands for its key, and nothing claims that. -/
structure GivenUp (desired : List Attachment) (observed : List StatusEntry)
    (taken : Attachment → Option String) (e : StatusEntry) : Prop where
  last : Index.last? StatusEntry.key (attached observed) e.key = some e
  unclaimed : e.key ∉ claimedBy desired observed taken

theorem GivenUp.attached (given : GivenUp desired observed taken e) : e ∈ attached observed :=
  (Index.last?_mem given.last).1

theorem GivenUp.eq_of_key (given : GivenUp desired observed taken d)
    (given' : GivenUp desired observed taken e) (same : d.key = e.key) : d = e := by
  have last := given.last
  rw [same, given'.last] at last
  exact (Option.some.inj last).symm

theorem exists_givenUp (mem : e ∈ attached observed)
    (unclaimed : e.key ∉ claimedBy desired observed taken) :
    ∃ d, GivenUp desired observed taken d ∧ d.key = e.key := by
  obtain ⟨d, last⟩ := Index.exists_last? (Index.mem_keys.mpr ⟨e, mem, rfl⟩)
  have key := (Index.last?_mem last).2
  exact ⟨d, ⟨by rw [key, last], by rwa [key]⟩, key⟩

section
variable (removes : (compute desired observed).remove = ((attachedKeys observed).filter fun k =>
  !(claimedBy desired observed taken).contains k).filterMap (removalOf? observed))
include removes

theorem mem_gone {k : String} : k ∈ gone (compute desired observed).remove ↔
    ∃ e, GivenUp desired observed taken e ∧ removalKey (removal e) = k := by
  rw [removes, gone]
  simp only [List.mem_map, List.mem_filterMap, List.mem_filter, removalOf?, Option.map_eq_some_iff,
    Bool.not_eq_true', List.contains_eq_mem, decide_eq_false_iff_not]
  constructor
  · rintro ⟨_, ⟨l, ⟨-, unclaimed⟩, e, last, rfl⟩, key⟩
    obtain ⟨-, rfl⟩ := Index.last?_mem last
    exact ⟨e, ⟨last, unclaimed⟩, key⟩
  · rintro ⟨e, given, key⟩
    refine ⟨_, ⟨e.key, ⟨?_, given.unclaimed⟩, e, given.last, rfl⟩, key⟩
    exact mem_attachedKeys.mpr ⟨e, given.attached, rfl⟩

theorem merge_of_not_slashed (front : ∀ e, GivenUp desired observed taken e → ¬ e.Slashed) :
    merge observed [] (compute desired observed).remove =
      observed.filter fun e => e.isDefault || (claimedBy desired observed taken).contains e.key := by
  have struck (e : StatusEntry) (mem : e ∈ attached observed) :
      e.key ∈ gone (compute desired observed).remove ↔
        e.key ∉ claimedBy desired observed taken := by
    rw [mem_gone removes]
    constructor
    · rintro ⟨d, given, key⟩
      rw [removalKey_of_not_slashed (front d given)] at key
      rw [← key]
      exact given.unclaimed
    · intro unclaimed
      obtain ⟨d, given, key⟩ := exists_givenUp mem unclaimed
      exact ⟨d, given, (removalKey_of_not_slashed (front d given)).trans key⟩
  rw [merge, List.filter_nil, List.filterMap_nil, List.append_nil]
  apply List.filter_congr
  intro e mem
  cases own : e.isDefault with
  | true => rfl
  | false =>
    have iff := struck e (mem_attached.mpr ⟨mem, own⟩)
    rw [gone] at iff
    simp [iff]

/-- Of the entries with such a slash the one with the longest key stays. -/
theorem exists_left_over (slashed : ∃ e, GivenUp desired observed taken e ∧ e.Slashed) :
    ∃ e, GivenUp desired observed taken e ∧
      e ∈ merge observed [] (compute desired observed).remove := by
  classical
  let lost := (attached observed).toFinset.filter
    fun e => GivenUp desired observed taken e ∧ e.Slashed
  have mem_lost (e : StatusEntry) : e ∈ lost ↔ GivenUp desired observed taken e ∧ e.Slashed := by
    rw [Finset.mem_filter, List.mem_toFinset]
    exact ⟨fun both => both.2, fun both => ⟨both.1.attached, both⟩⟩
  obtain ⟨e, mem, longest⟩ := Finset.exists_max_image lost (fun e => e.key.length)
    (slashed.imp fun e both => (mem_lost e).mpr both)
  obtain ⟨given, slashed⟩ := (mem_lost e).mp mem
  refine ⟨e, given, ?_⟩
  have kept : e.key ∉ gone (compute desired observed).remove := by
    intro struck
    obtain ⟨d, given', key⟩ := (mem_gone removes).mp struck
    by_cases front : d.Slashed
    · have longer := longest d ((mem_lost d).mpr ⟨given', front⟩)
      have slash : ("/" : String).length = 1 := rfl
      rw [front.key_eq, key, String.length_append] at longer
      omega
    · rw [removalKey_of_not_slashed front] at key
      exact front (given'.eq_of_key given key ▸ slashed)
  exact (mem_attached.mp (mem_attached_merge.mpr (.inl ⟨given.attached, kept⟩))).1

end

/-- A merge strikes out just what the plan gives up, the entries whose keys no request claims,
and keeps the others in their order, if and only if no name of an entry that is given up begins
with a slash. -/
theorem merge_strikes_unclaimed (desired : List Attachment) (observed : List StatusEntry) :
    ∃ taken, Matching desired observed taken ∧ LeavesNoLesser desired observed taken ∧
      (compute desired observed).add = unmatched desired taken ∧
      (merge observed [] (compute desired observed).remove =
          observed.filter (fun e =>
            e.isDefault || (claimedBy desired observed taken).contains e.key) ↔
        ∀ e, GivenUp desired observed taken e → ¬ e.Slashed) := by
  obtain ⟨taken, matching, least, add, removes⟩ := exists_matching desired observed
  refine ⟨taken, matching, least, add, ?_, merge_of_not_slashed removes⟩
  intro same e given slashed
  obtain ⟨d, given', left⟩ := exists_left_over removes ⟨e, given, slashed⟩
  rw [same, List.mem_filter, (mem_attached.mp given'.attached).2, Bool.false_or,
    List.contains_iff_mem] at left
  exact given'.unclaimed left.2

def sampleSlashes : List StatusEntry :=
  [{ name := "ns1/net1", interface := "eth1" }, { name := "/ns1/net1", interface := "eth1" }]

def sampleSlashesText : String :=
  "[\x7b\"name\": \"ns1/net1\", \"interface\": \"eth1\"\x7d, " ++
    "\x7b\"name\": \"/ns1/net1\", \"interface\": \"eth1\"\x7d]"

def sampleWanted : List Attachment := [{ ns := "ns1", name := "net1", interface := "eth1" }]

/-- To give up the second entry, the first one is struck out, which the request claims. -/
theorem slashed_name_strikes_claimed :
    parse sampleSlashesText = .ok sampleSlashes ∧
      compute sampleWanted sampleSlashes =
        { remove := [{ name := "ns1/net1", interface := "eth1" }] } ∧
      merge sampleSlashes [] (compute sampleWanted sampleSlashes).remove =
        [{ name := "/ns1/net1", interface := "eth1" }] := by
  have plan : compute sampleWanted sampleSlashes =
      { remove := [{ name := "ns1/net1", interface := "eth1" }] } := by
    simp [compute, sampleWanted, sampleSlashes, attached, Index.byKey, Index.keys, Index.last?,
      StatusEntry.key, assign, Plan.named, Attachment.key, removal, List.eraseDups_cons,
      List.mergeSort, Text.splitOnce, List.MergeSort.Internal.splitInTwo]
  rw [plan]
  exact ⟨by decide +kernel, rfl, by decide +kernel⟩

end Hotplug
