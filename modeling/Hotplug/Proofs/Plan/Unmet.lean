import Hotplug.Proofs.Plan.Claims
/-!
What a plan adds, for requests and entries of any names: requests with different keys, and none
that an attached entry of its network and interface meets. The requests need namespaces; only the
one in question needs names without slashes, which tell its key from all others. What a plan
removes is not covered.
-/
namespace Hotplug

theorem clean_iff_count {s : String} : Clean s ↔ s.toList.count '/' = 0 := by
  rw [Clean, List.count_eq_zero]

/-- Three segments without slashes are the only ones that make their key. -/
theorem clean_segments_unique {x y z ns name rest : String}
    (h : x ++ "/" ++ y ++ "/" ++ z = ns ++ "/" ++ name ++ "/" ++ rest) (ns_clean : Clean ns)
    (name_clean : Clean name) (rest_clean : Clean rest) : x = ns ∧ y = name ∧ z = rest := by
  have slashes := congrArg (fun s : String => s.toList.count '/') h
  simp only [String.toList_append, List.count_append] at slashes
  rw [clean_iff_count.mp ns_clean, clean_iff_count.mp name_clean,
    clean_iff_count.mp rest_clean] at slashes
  have one : ("/" : String).toList.count '/' = 1 := rfl
  have x_clean : Clean x := clean_iff_count.mpr (by omega)
  have y_clean : Clean y := clean_iff_count.mpr (by omega)
  exact segments_unique h x_clean ns_clean y_clean name_clean

namespace Plan

variable {entries : List StatusEntry} {desired : List Attachment} {seen claimed : List String}
  {a b : Attachment}

theorem unmet_sublist :
    (assign entries desired seen claimed).1.Sublist (firsts seen desired) := by
  induction desired generalizing seen claimed with
  | nil => simp [assign, firsts]
  | cons a more ih =>
    by_cases old : a.key ∈ seen
    · rw [assign_seen old]
      simpa [firsts, old] using ih
    · have first : firsts seen (a :: more) = a :: firsts (a.key :: seen) more := by
        simp [firsts, old]
      rw [first]
      cases met : meet? entries claimed a with
      | some next =>
        rw [assign_met next old met]
        exact ih.cons a
      | none =>
        rw [assign_unmet old met]
        exact ih.cons_cons a

theorem claimed_of_meet {next : List String} (met : meet? entries claimed b = some next) :
    ∀ k ∈ claimed, k ∈ next := by
  unfold meet? at met
  intro k mem
  split at met
  · obtain ⟨j, -, rfl⟩ := Option.map_eq_some_iff.mp met
    exact List.mem_cons_of_mem j mem
  · split at met
    · obtain rfl := Option.some.inj met
      exact mem
    · cases met

theorem unclaimed_of_unmet (unmet : a ∈ (assign entries desired seen claimed).1)
    (named : a.interface ≠ "") : a.key ∉ claimed := by
  induction desired generalizing seen claimed with
  | nil => simp [assign] at unmet
  | cons b more ih =>
    by_cases old : b.key ∈ seen
    · rw [assign_seen old] at unmet
      exact ih unmet
    · cases met : meet? entries claimed b with
      | some next =>
        rw [assign_met next old met] at unmet
        exact fun mem => ih unmet (claimed_of_meet met _ mem)
      | none =>
        rw [assign_unmet old met] at unmet
        rcases List.mem_cons.mp unmet with rfl | later
        · intro mem
          simp [meet?, named, mem] at met
        · exact ih later

/-- The key of an entry that only a request without an interface would name. -/
def bareKey (a : Attachment) : String := a.statusName ++ "/"

theorem bareKey_unclaimed {next : List String} (met : meet? entries claimed b = some next)
    (wa : a.WellNamed) (spaced : b.ns ≠ "") (unnamed : a.interface = "") (other : b.key ≠ a.key)
    (free : bareKey a ∉ claimed) : bareKey a ∉ next := by
  unfold meet? at met
  split at met
  · rename_i bare
    obtain ⟨k, pick, rfl⟩ := Option.map_eq_some_iff.mp met
    obtain ⟨⟨e, -, name, rfl, -⟩, -⟩ := candidate?_eq_some.mp pick
    rw [List.mem_cons, not_or]
    refine ⟨?_, free⟩
    intro same
    have keys : b.ns ++ "/" ++ b.name ++ "/" ++ e.interface =
        a.ns ++ "/" ++ a.name ++ "/" ++ "" := by
      rw [← Attachment.statusName_of_ns spaced, ← name,
        ← Attachment.statusName_of_ns wa.ns_nonempty, String.append_empty]
      exact same.symm
    obtain ⟨ns, network, -⟩ :=
      clean_segments_unique keys wa.ns_clean wa.name_clean (by simp [Clean])
    refine other ?_
    simp [Attachment.key, bare, unnamed, ns, network]
  · split at met
    · obtain rfl := Option.some.inj met
      exact free
    · cases met

theorem unattached_of_bare (unmet : a ∈ (assign entries desired seen claimed).1)
    (wa : a.WellNamed) (spaced : ∀ b ∈ desired, b.ns ≠ "") (unnamed : a.interface = "")
    (free : bareKey a ∉ claimed) : ∀ e ∈ entries, e.name = a.statusName → e.interface ≠ "" := by
  induction desired generalizing seen claimed with
  | nil => simp [assign] at unmet
  | cons b more ih =>
    -- up to the place of `a` no request claims its bare key; behind it `a` is not unmet again
    have spaced' : ∀ c ∈ more, c.ns ≠ "" := fun c hc => spaced c (List.mem_cons_of_mem b hc)
    by_cases old : b.key ∈ seen
    · rw [assign_seen old] at unmet
      exact ih unmet spaced' free
    · cases met : meet? entries claimed b with
      | some next =>
        rw [assign_met next old met] at unmet
        have fresh := (mem_of_mem_firsts (unmet_sublist.subset unmet)).2
        have other : b.key ≠ a.key := by
          intro same
          exact fresh (by simp [same])
        exact ih unmet spaced'
          (bareKey_unclaimed met wa (spaced b (by simp)) unnamed other free)
      | none =>
        rw [assign_unmet old met] at unmet
        rcases List.mem_cons.mp unmet with rfl | later
        · have none : candidate? entries claimed a.statusName = none := by
            simpa [meet?, unnamed] using met
          intro e mem name bare
          refine free ?_
          have claim := candidate?_eq_none.mp none e mem name
          simpa [StatusEntry.key, name, bare, bareKey] using claim
        · exact ih later spaced' free

variable {observed : List StatusEntry}

theorem mem_desired_of_add (unmet : a ∈ (compute desired observed).add) : a ∈ desired := by
  rw [compute_add_eq] at unmet
  exact (mem_of_mem_firsts (unmet_sublist.subset unmet)).1

theorem attached_of_remove (stale : a ∈ (compute desired observed).remove) :
    ∃ e ∈ attached observed, a = removal e := by
  obtain ⟨⟨k, e⟩, listed, rfl⟩ := List.mem_map.mp stale
  obtain ⟨l, -, found⟩ := List.mem_filterMap.mp (List.mem_of_mem_filter listed)
  obtain ⟨d, last, same⟩ := Option.map_eq_some_iff.mp found
  obtain ⟨-, rfl⟩ := Prod.mk.inj same
  exact ⟨d, (Index.last?_mem last).1, rfl⟩

theorem add_keys_nodup : ((compute desired observed).add.map Attachment.key).Nodup := by
  rw [compute_add_eq]
  exact (unmet_sublist.map Attachment.key).nodup firsts_keys_nodup

theorem unattached_of_add (unmet : a ∈ (compute desired observed).add) (wa : a.WellNamed)
    (spaced : ∀ b ∈ desired, b.ns ≠ "") :
    ∀ e ∈ attached observed, e.name = a.statusName → e.interface ≠ a.interface := by
  have mem := mem_desired_of_add unmet
  rw [compute_add_eq] at unmet
  intro e he name interface
  by_cases unnamed : a.interface = ""
  · refine unattached_of_bare unmet wa spaced unnamed ?_ e he name (interface.trans unnamed)
    intro claim
    obtain ⟨⟨b, -, named, key⟩, -⟩ := mem_fixedClaims.mp claim
    have keys : b.ns ++ "/" ++ b.name ++ "/" ++ b.interface =
        a.ns ++ "/" ++ a.name ++ "/" ++ "" := by
      simpa [Attachment.key, named, bareKey, Attachment.statusName_of_ns wa.ns_nonempty] using key
    exact named (clean_segments_unique keys wa.ns_clean wa.name_clean (by simp [Clean])).2.2
  · refine unclaimed_of_unmet unmet unnamed ?_
    refine mem_fixedClaims.mpr ⟨⟨a, mem, unnamed, rfl⟩, e, he, ?_⟩
    rw [Attachment.key_of_interface wa.ns_nonempty unnamed, StatusEntry.key, name, interface]

end Plan

end Hotplug
