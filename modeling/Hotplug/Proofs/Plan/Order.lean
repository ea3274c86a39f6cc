import Hotplug.Proofs.Plan.Distinct
import Hotplug.Proofs.Plan.Matching
/-!
What the order of the requests and of the entries means to a plan. Which entries there are decides
all, not where they stand or how often. Requests with different keys take what they take wherever
they stand; only the additions come in their order. Which of several requests with one key is
added does depend on the order, and is not covered.
-/
namespace Hotplug.Plan

variable {desired desired' : List Attachment} {observed observed' : List StatusEntry}

theorem firsts_of_distinct {seen : List String} (distinct : (desired.map Attachment.key).Nodup)
    (unseen : ∀ a ∈ desired, a.key ∉ seen) : firsts seen desired = desired := by
  induction desired generalizing seen with
  | nil => rfl
  | cons a more ih =>
    rw [List.map_cons, List.nodup_cons] at distinct
    have fresh : a.key ∉ seen := unseen a (by simp)
    have rest : firsts (a.key :: seen) more = more := by
      apply ih distinct.2
      intro b mem old
      rcases List.mem_cons.mp old with same | old
      · exact distinct.1 (List.mem_map.mpr ⟨b, mem, same⟩)
      · exact unseen b (List.mem_cons_of_mem a mem) old
    simp [firsts, fresh, rest]

section
variable (requests : ∀ a, a ∈ desired' ↔ a ∈ desired) (entries : ∀ e, e ∈ observed' ↔ e ∈ observed)

include entries in
theorem mem_attached_congr (e : StatusEntry) : e ∈ attached observed' ↔ e ∈ attached observed := by
  rw [mem_attached, mem_attached, entries]

include entries in
theorem attachedKeys_congr : attachedKeys observed' = attachedKeys observed := by
  apply ascending_unique Index.keys_ascending Index.keys_ascending
  intro k
  rw [Index.mem_keys, Index.mem_keys]
  simp only [mem_attached_congr entries]

include requests entries

theorem mem_fixedClaims_congr (k : String) :
    k ∈ fixedClaims desired' observed' ↔ k ∈ fixedClaims desired observed := by
  simp only [mem_fixedClaims, requests, mem_attached_congr entries]

theorem candidate?_fixedClaims_congr (network : String) :
    candidate? (attached observed') (fixedClaims desired' observed') network =
      candidate? (attached observed) (fixedClaims desired observed) network := by
  ext k
  simp only [candidate?_eq_some, mem_attached_congr entries, mem_fixedClaims_congr requests entries]

theorem isUnmet_congr : isUnmet (attached observed') (fixedClaims desired' observed') =
    isUnmet (attached observed) (fixedClaims desired observed) := by
  funext a
  simp only [isUnmet, candidate?_fixedClaims_congr requests entries, List.contains_eq_mem,
    mem_fixedClaims_congr requests entries]

theorem mem_claims_congr (k : String) :
    k ∈ claims desired' observed' ↔ k ∈ claims desired observed := by
  simp only [claims, List.mem_append, List.mem_filterMap, pick?, requests,
    mem_fixedClaims_congr requests entries, candidate?_fixedClaims_congr requests entries]

theorem stale_congr : stale desired' observed' = stale desired observed := by
  unfold stale
  rw [attachedKeys_congr entries]
  simp only [List.contains_eq_mem, mem_claims_congr requests entries]

end

theorem removalOf?_congr (tell : StatusEntry.KeysTell (attached observed))
    (entries : ∀ e, e ∈ observed' ↔ e ∈ observed) {k : String} (mem : k ∈ attachedKeys observed) :
    removalOf? observed' k = removalOf? observed k := by
  have mem' : k ∈ attachedKeys observed' := by rwa [attachedKeys_congr entries]
  obtain ⟨d, last⟩ := Index.exists_last? mem'
  obtain ⟨e, last'⟩ := Index.exists_last? mem
  obtain ⟨there, rfl⟩ := Index.last?_mem last
  obtain ⟨there', key⟩ := Index.last?_mem last'
  obtain ⟨name, interface⟩ := tell d ((mem_attached_congr entries d).mp there) e there' key.symm
  rw [removalOf?, removalOf?, last, last', Option.map_some, Option.map_some]
  simp only [removal, name, interface]

theorem keysTell_congr (tell : StatusEntry.KeysTell (attached observed))
    (entries : ∀ e, e ∈ observed' ↔ e ∈ observed) :
    StatusEntry.KeysTell (attached observed') := by
  intro d hd e he
  exact tell d ((mem_attached_congr entries d).mp hd) e ((mem_attached_congr entries e).mp he)

section
variable (tell : StatusEntry.KeysTell (attached observed)) (wd : ∀ a ∈ desired, a.Segmented)
  (entries : ∀ e, e ∈ observed' ↔ e ∈ observed)
include tell wd entries

theorem compute_remove_congr (requests : ∀ a, a ∈ desired' ↔ a ∈ desired) :
    (compute desired' observed').remove = (compute desired observed).remove := by
  have wd' : ∀ a ∈ desired', a.Segmented := fun a mem => wd a ((requests a).mp mem)
  rw [compute_remove (keysTell_congr tell entries) wd', compute_remove tell wd,
    stale_congr requests entries]
  apply List.filterMap_congr
  intro k stale
  exact removalOf?_congr tell entries (List.mem_filter.mp stale).1

theorem compute_add_congr (distinct : (desired.map Attachment.key).Nodup)
    (requests : desired'.Perm desired) : (compute desired' observed').add =
      desired'.filter (isUnmet (attached observed) (fixedClaims desired observed)) := by
  have wd' : ∀ a ∈ desired', a.Segmented := fun a mem => wd a (requests.mem_iff.mp mem)
  have distinct' : (desired'.map Attachment.key).Nodup :=
    (requests.map Attachment.key).nodup_iff.mpr distinct
  rw [compute_add (keysTell_congr tell entries) wd',
    firsts_of_distinct distinct' (fun _ _ => List.not_mem_nil),
    isUnmet_congr (fun _ => requests.mem_iff) entries]

end

/-- A plan stays the same when entries change places or are repeated. When requests with different
keys change places, it removes the same in the same order, and adds the same in the new order. -/
theorem compute_reordered (distinct : (desired.map Attachment.key).Nodup)
    (spaced : ∀ a ∈ desired, a.ns ≠ "") (segments : ∀ a ∈ desired, Clean a.ns ∧ Clean a.name)
    (interfaces : ∀ e ∈ attached observed, Clean e.interface)
    (requests : desired'.Perm desired) (entries : ∀ e, e ∈ observed' ↔ e ∈ observed) :
    compute desired observed' = compute desired observed ∧
      (compute desired' observed').remove = (compute desired observed).remove ∧
      (compute desired' observed').add.Perm (compute desired observed).add ∧
      (compute desired' observed').add = desired'.filter (· ∈ (compute desired observed).add) := by
  have wd : ∀ a ∈ desired, a.Segmented :=
    fun a ha => ⟨spaced a ha, (segments a ha).1, (segments a ha).2⟩
  have tell := StatusEntry.KeysTell.of_clean interfaces
  have own := compute_add_congr tell wd (fun _ => Iff.rfl) distinct (List.Perm.refl desired)
  have repeated := compute_add_congr tell wd entries distinct (List.Perm.refl desired)
  have moved := compute_add_congr tell wd entries distinct requests
  refine ⟨?_, compute_remove_congr tell wd entries fun _ => requests.mem_iff, ?_, ?_⟩
  · rw [Plan.mk.injEq]
    exact ⟨repeated.trans own.symm, compute_remove_congr tell wd entries fun _ => Iff.rfl⟩
  · rw [moved, own]
    exact requests.filter _
  · rw [moved, own]
    apply List.filter_congr
    intro a mem
    simp [requests.mem_iff.mp mem]

/-! Two requests of one network and one of another, and entries that come twice. -/

def sampleTurned : List Attachment :=
  [{ ns := "default", name := "b", interface := "eth5" },
    { ns := "default", name := "a", interface := "eth1" }, { ns := "default", name := "a" }]

def sampleShuffled : List StatusEntry := sampleStatus.reverse ++ sampleStatus.take 3

theorem sample_reordered :
    (sampleTurned.reverse.map Attachment.key).Nodup ∧
      (∀ a ∈ sampleTurned.reverse, a.ns ≠ "") ∧
      (∀ a ∈ sampleTurned.reverse, Clean a.ns ∧ Clean a.name) ∧
      (∀ e ∈ attached sampleStatus, Clean e.interface) ∧
      sampleTurned.Perm sampleTurned.reverse ∧ (∀ e, e ∈ sampleShuffled ↔ e ∈ sampleStatus) ∧
      (compute sampleTurned sampleShuffled).add =
        [{ ns := "default", name := "b", interface := "eth5" }, { ns := "default", name := "a" }] ∧
      (compute sampleTurned sampleShuffled).remove =
        [{ ns := "default", name := "c", interface := "eth3" },
          { ns := "default", name := "c", interface := "eth4" }] := by
  have distinct : (sampleTurned.reverse.map Attachment.key).Nodup := by decide +kernel
  have spaced : ∀ a ∈ sampleTurned.reverse, a.ns ≠ "" := by decide +kernel
  have segments : ∀ a ∈ sampleTurned.reverse, Clean a.ns ∧ Clean a.name := by
    simp [sampleTurned, Clean]
  have interfaces : ∀ e ∈ attached sampleStatus, Clean e.interface := by
    simp [attached, sampleStatus, Clean]
  have turned : sampleTurned.Perm sampleTurned.reverse := (List.reverse_perm _).symm
  have shuffled : ∀ e, e ∈ sampleShuffled ↔ e ∈ sampleStatus := by
    intro e
    rw [sampleShuffled, List.mem_append, List.mem_reverse]
    exact or_iff_left_of_imp List.mem_of_mem_take
  have agree : KeysAgree sampleRequests := by
    unfold KeysAgree
    decide +kernel
  have firsts_eq : sampleTurned.reverse = firsts [] sampleRequests := by decide +kernel
  have plan := compute_firsts agree sampleStatus
  rw [← firsts_eq, compute_sample] at plan
  obtain ⟨-, remove, -, add⟩ :=
    compute_reordered distinct spaced segments interfaces turned shuffled
  rw [plan] at remove add
  refine ⟨distinct, spaced, segments, interfaces, turned, shuffled, add.trans ?_, remove⟩
  decide +kernel

end Hotplug.Plan
