import Hotplug.Proofs.Naming
import Hotplug.Proofs.Sorted
import Mathlib.Data.List.Nodup
/-!
The claims of a plan without the order of their making. A request without an interface only
competes with the requests that name one: two such requests of one network have one key, and
those of different networks claim different keys. So what each request claims follows from the
claims that are fixed beforehand, and the plan has a form that goes through no requests.
-/
namespace Hotplug.Plan

def firsts : List String → List Attachment → List Attachment
  | _, [] => []
  | seen, a :: more =>
    if seen.contains a.key then firsts seen more else a :: firsts (a.key :: seen) more

/-- What a request without an interface claims next to the fixed claims. -/
def pick? (entries : List StatusEntry) (fixed : List String) (a : Attachment) : Option String :=
  if a.interface = "" then candidate? entries fixed a.statusName else none

def isUnmet (entries : List StatusEntry) (fixed : List String) (a : Attachment) : Bool :=
  if a.interface = "" then (candidate? entries fixed a.statusName).isNone
  else !fixed.contains a.key

variable {entries : List StatusEntry} {desired : List Attachment} {seen fixed claimed : List String}

theorem mem_of_mem_firsts {a : Attachment} (h : a ∈ firsts seen desired) :
    a ∈ desired ∧ a.key ∉ seen := by
  induction desired generalizing seen with
  | nil => simp [firsts] at h
  | cons b more ih =>
    simp only [firsts] at h
    split at h
    · exact ⟨List.mem_cons_of_mem b (ih h).1, (ih h).2⟩
    · rename_i unseen
      rcases List.mem_cons.mp h with rfl | h
      · exact ⟨by simp, by simpa using unseen⟩
      · obtain ⟨mem, later⟩ := ih h
        exact ⟨List.mem_cons_of_mem b mem, fun old => later (List.mem_cons_of_mem _ old)⟩

theorem firsts_keys_nodup : ((firsts seen desired).map Attachment.key).Nodup := by
  induction desired generalizing seen with
  | nil => simp [firsts]
  | cons a more ih =>
    simp only [firsts]
    split
    · exact ih
    · rw [List.map_cons, List.nodup_cons]
      refine ⟨?_, ih⟩
      intro again
      obtain ⟨b, hb, eq⟩ := List.mem_map.mp again
      exact (mem_of_mem_firsts hb).2 (by simp [eq])

theorem first_unique {a b : Attachment} (ha : a ∈ firsts seen desired)
    (hb : b ∈ firsts seen desired) (key : a.key = b.key) : a = b :=
  List.inj_on_of_nodup_map firsts_keys_nodup ha hb key

theorem exists_first {a : Attachment} (mem : a ∈ desired) (unseen : a.key ∉ seen) :
    ∃ b ∈ firsts seen desired, b.key = a.key := by
  induction desired generalizing seen with
  | nil => simp at mem
  | cons c more ih =>
    simp only [firsts]
    by_cases same : c.key = a.key
    · have fresh : c.key ∉ seen := same ▸ unseen
      exact ⟨c, by simp [fresh], same⟩
    · have later : a ∈ more := by
        rcases List.mem_cons.mp mem with rfl | later
        · exact absurd rfl same
        · exact later
      split
      · exact ih later unseen
      · have unseen' : a.key ∉ c.key :: seen := by
          simp only [List.mem_cons, not_or]
          exact ⟨Ne.symm same, unseen⟩
        obtain ⟨b, hb, eq⟩ := ih later unseen'
        exact ⟨b, List.mem_cons_of_mem c hb, eq⟩

theorem candidate?_eq_none {network : String} :
    candidate? entries claimed network = none ↔
      ∀ e ∈ entries, e.name = network → e.key ∈ claimed := by
  simp only [candidate?, least?_eq_none, List.filter_eq_nil_iff, List.mem_map, List.mem_filter]
  constructor
  · intro all e mem name
    simpa using all e.key ⟨e, ⟨mem, by simpa using name⟩, rfl⟩
  · rintro all k ⟨e, ⟨mem, name⟩, rfl⟩
    simpa using all e mem (by simpa using name)

theorem candidate?_eq_some {network k : String} :
    candidate? entries claimed network = some k ↔
      (∃ e ∈ entries, e.name = network ∧ e.key = k ∧ k ∉ claimed) ∧
        ∀ e ∈ entries, e.name = network → e.key ∉ claimed → k ≤ e.key := by
  simp only [candidate?, least?_eq_some, List.mem_filter, List.mem_map]
  constructor
  · rintro ⟨⟨⟨e, ⟨mem, name⟩, rfl⟩, unclaimed⟩, least⟩
    refine ⟨⟨e, mem, by simpa using name, rfl, by simpa using unclaimed⟩, ?_⟩
    intro d hd same unclaimed
    exact least d.key ⟨⟨d, ⟨hd, by simpa using same⟩, rfl⟩, by simpa using unclaimed⟩
  · rintro ⟨⟨e, mem, name, rfl, unclaimed⟩, least⟩
    refine ⟨⟨⟨e, ⟨mem, by simpa using name⟩, rfl⟩, by simpa using unclaimed⟩, ?_⟩
    rintro k ⟨⟨d, ⟨hd, same⟩, rfl⟩, unclaimed⟩
    exact least d hd (by simpa using same) (by simpa using unclaimed)

theorem candidate?_congr {claimed' : List String} {network : String}
    (same : ∀ e ∈ entries, e.name = network → (e.key ∈ claimed ↔ e.key ∈ claimed')) :
    candidate? entries claimed network = candidate? entries claimed' network := by
  unfold candidate?
  congr 1
  apply List.filter_congr
  intro k hk
  obtain ⟨e, he, rfl⟩ := List.mem_map.mp hk
  obtain ⟨mem, name⟩ := List.mem_filter.mp he
  have iff := same e mem (by simpa using name)
  simp [iff]

/-- What holds of the claims after some requests: besides the fixed claims there are only picks
of requests already seen. -/
structure Claimed (entries : List StatusEntry) (fixed seen claimed : List String) : Prop where
  kept : ∀ k ∈ fixed, k ∈ claimed
  picked : ∀ k ∈ claimed, k ∈ fixed ∨ ∃ b : Attachment, b.Segmented ∧ b.interface = "" ∧
    b.key ∈ seen ∧ candidate? entries fixed b.statusName = some k

theorem Claimed.see (c : Claimed entries fixed seen claimed) (k : String) :
    Claimed entries fixed (k :: seen) claimed where
  kept := c.kept
  picked := by
    intro l hl
    obtain fix | ⟨b, wb, unnamed, old, pick⟩ := c.picked l hl
    · exact .inl fix
    · exact .inr ⟨b, wb, unnamed, List.mem_cons_of_mem k old, pick⟩

theorem Claimed.pick {a : Attachment} {k : String} (c : Claimed entries fixed seen claimed)
    (wa : a.Segmented) (unnamed : a.interface = "")
    (pick : candidate? entries fixed a.statusName = some k) :
    Claimed entries fixed (a.key :: seen) (k :: claimed) where
  kept := fun l hl => List.mem_cons_of_mem k (c.kept l hl)
  picked := by
    intro l hl
    rcases List.mem_cons.mp hl with rfl | hl
    · exact .inr ⟨a, wa, unnamed, by simp, pick⟩
    · exact (c.see a.key).picked l hl

theorem Claimed.candidate?_eq {a : Attachment} (c : Claimed entries fixed seen claimed)
    (tell : StatusEntry.KeysTell entries) (wa : a.Segmented) (unnamed : a.interface = "")
    (unseen : a.key ∉ seen) :
    candidate? entries claimed a.statusName = candidate? entries fixed a.statusName := by
  apply candidate?_congr
  intro e he name
  refine ⟨fun hk => ?_, c.kept e.key⟩
  obtain fix | ⟨b, wb, bare, old, pick⟩ := c.picked e.key hk
  · exact fix
  · obtain ⟨⟨d, hd, network, key, -⟩, -⟩ := candidate?_eq_some.mp pick
    have same := (tell d hd e he key).1
    have keys : b.key = a.key := by
      rw [Attachment.key_of_no_interface wb.ns_nonempty bare,
        Attachment.key_of_no_interface wa.ns_nonempty unnamed, ← network, same, name]
    exact absurd (keys ▸ old) unseen

theorem Claimed.mem_iff {k : String} (c : Claimed entries fixed seen claimed)
    (complete : ∀ e ∈ entries, e.key = k → k ∈ fixed) : k ∈ claimed ↔ k ∈ fixed := by
  refine ⟨fun hk => ?_, c.kept k⟩
  obtain fix | ⟨b, -, -, -, pick⟩ := c.picked k hk
  · exact fix
  · obtain ⟨⟨d, hd, -, key, -⟩, -⟩ := candidate?_eq_some.mp pick
    exact complete d hd key

def meet? (entries : List StatusEntry) (claimed : List String) (a : Attachment) :
    Option (List String) :=
  if a.interface = "" then (candidate? entries claimed a.statusName).map (· :: claimed)
  else if a.key ∈ claimed then some claimed
  else none

theorem assign_seen {a : Attachment} (old : a.key ∈ seen) :
    assign entries (a :: desired) seen claimed = assign entries desired seen claimed := by
  simp [assign, old]

theorem assign_met {a : Attachment} (next : List String) (unseen : a.key ∉ seen)
    (met : meet? entries claimed a = some next) :
    assign entries (a :: desired) seen claimed =
      assign entries desired (a.key :: seen) next := by
  unfold meet? at met
  simp only [assign, List.contains_iff_mem, unseen, String.isEmpty_iff, met]
  simp

theorem assign_unmet {a : Attachment} (unseen : a.key ∉ seen)
    (unmet : meet? entries claimed a = none) :
    assign entries (a :: desired) seen claimed =
      (a :: (assign entries desired (a.key :: seen) claimed).1,
        (assign entries desired (a.key :: seen) claimed).2) := by
  unfold meet? at unmet
  simp only [assign, List.contains_iff_mem, unseen, String.isEmpty_iff, unmet]
  simp

theorem assign_eq (tell : StatusEntry.KeysTell entries) (wd : ∀ a ∈ desired, a.Segmented)
    (complete : ∀ a ∈ desired, a.interface ≠ "" → ∀ e ∈ entries, e.key = a.key → a.key ∈ fixed)
    (c : Claimed entries fixed seen claimed) :
    (assign entries desired seen claimed).1 =
        (firsts seen desired).filter (isUnmet entries fixed) ∧
      ∀ k, k ∈ (assign entries desired seen claimed).2 ↔
        k ∈ claimed ∨ ∃ a ∈ firsts seen desired, pick? entries fixed a = some k := by
  -- `Claimed` tells what the claims made on the way can be: none of them matters to `a`
  induction desired generalizing seen claimed with
  | nil => simp [assign, firsts]
  | cons a more ih =>
    have wa := wd a (by simp)
    have rest {seen claimed} (c : Claimed entries fixed seen claimed) :=
      ih (fun b hb => wd b (List.mem_cons_of_mem a hb))
        (fun b hb => complete b (List.mem_cons_of_mem a hb)) c
    by_cases old : a.key ∈ seen
    · have same : firsts seen (a :: more) = firsts seen more := by simp [firsts, old]
      rw [assign_seen old, same]
      exact rest c
    · have first : firsts seen (a :: more) = a :: firsts (a.key :: seen) more := by
        simp [firsts, old]
      rw [first]
      by_cases unnamed : a.interface = ""
      · have stable := c.candidate?_eq tell wa unnamed old
        cases pick : candidate? entries fixed a.statusName with
        | none =>
          rw [assign_unmet old (by simp [meet?, unnamed, stable, pick])]
          obtain ⟨unmet, claims⟩ := rest (c.see a.key)
          simp [unmet, claims, isUnmet, pick?, unnamed, pick]
        | some k =>
          rw [assign_met (k :: claimed) old (by simp [meet?, unnamed, stable, pick])]
          obtain ⟨unmet, claims⟩ := rest (c.pick wa unnamed pick)
          refine ⟨by simp [unmet, isUnmet, unnamed, pick], ?_⟩
          intro l
          have own : pick? entries fixed a = some l ↔ l = k := by
            simp [pick?, unnamed, pick, eq_comm]
          simp only [claims, List.mem_cons, exists_eq_or_imp, own]
          rw [or_assoc, or_left_comm]
      · have iff := c.mem_iff (complete a (by simp) unnamed)
        obtain ⟨unmet, claims⟩ := rest (c.see a.key)
        by_cases met : a.key ∈ fixed
        · rw [assign_met claimed old (by simp [meet?, unnamed, iff.mpr met])]
          simp [unmet, claims, isUnmet, pick?, unnamed, met]
        · have free : a.key ∉ claimed := fun h => met (iff.mp h)
          rw [assign_unmet old (by simp [meet?, unnamed, free])]
          simp [unmet, claims, isUnmet, pick?, unnamed, met]

def attachedKeys (observed : List StatusEntry) : List String :=
  Index.keys StatusEntry.key (attached observed)

def fixedClaims (desired : List Attachment) (observed : List StatusEntry) : List String :=
  Plan.named desired (attachedKeys observed)

def claims (desired : List Attachment) (observed : List StatusEntry) : List String :=
  fixedClaims desired observed ++
    desired.filterMap (pick? (attached observed) (fixedClaims desired observed))

def stale (desired : List Attachment) (observed : List StatusEntry) : List String :=
  (attachedKeys observed).filter fun k => !(claims desired observed).contains k

def removalOf? (observed : List StatusEntry) (k : String) : Option Attachment :=
  (Index.last? StatusEntry.key (attached observed) k).map removal

variable {observed : List StatusEntry}

theorem mem_attached {e : StatusEntry} :
    e ∈ attached observed ↔ e ∈ observed ∧ e.isDefault = false := by
  simp [attached]

theorem mem_attachedKeys {k : String} :
    k ∈ attachedKeys observed ↔ ∃ e ∈ attached observed, e.key = k :=
  Index.mem_keys

theorem byKey_keys (entries : List StatusEntry) :
    (Index.byKey StatusEntry.key entries).map (·.1) = Index.keys StatusEntry.key entries := by
  have all : ∀ ks : List String, (∀ k ∈ ks, k ∈ Index.keys StatusEntry.key entries) →
      (ks.filterMap fun k => (Index.last? StatusEntry.key entries k).map (k, ·)).map (·.1) =
        ks := by
    intro ks inside
    induction ks with
    | nil => rfl
    | cons k ks ih =>
      obtain ⟨e, he⟩ := Index.exists_last? (inside k (by simp))
      simp [he, ih fun l hl => inside l (List.mem_cons_of_mem k hl)]
  exact all _ fun _ hk => hk

theorem removals_of_keys (entries : List StatusEntry) (keep : String → Bool) (ks : List String) :
    ((ks.filterMap fun k => (Index.last? StatusEntry.key entries k).map (k, ·)).filter
        (keep ·.1)).map (fun pair => removal pair.2) =
      (ks.filter keep).filterMap fun k => (Index.last? StatusEntry.key entries k).map removal := by
  induction ks with
  | nil => rfl
  | cons k ks ih =>
    cases found : Index.last? StatusEntry.key entries k <;> cases kept : keep k <;>
      simp [found, kept, ih]

theorem mem_named {keys : List String} {k : String} :
    k ∈ named desired keys ↔ (∃ a ∈ desired, a.interface ≠ "" ∧ a.key = k) ∧ k ∈ keys := by
  simp only [named, List.mem_filter, List.mem_map, List.contains_iff_mem]
  simp [and_assoc]

theorem mem_fixedClaims {k : String} :
    k ∈ fixedClaims desired observed ↔
      (∃ a ∈ desired, a.interface ≠ "" ∧ a.key = k) ∧ ∃ e ∈ attached observed, e.key = k := by
  rw [fixedClaims, mem_named, mem_attachedKeys]

theorem claimed_at_first :
    Claimed (attached observed) (fixedClaims desired observed) []
      (fixedClaims desired observed) where
  kept := fun _ hk => hk
  picked := fun _ hk => .inl hk

theorem exists_pick_firsts (wd : ∀ a ∈ desired, a.Segmented) {k : String} :
    (∃ a ∈ firsts [] desired, pick? entries fixed a = some k) ↔
      ∃ a ∈ desired, pick? entries fixed a = some k := by
  constructor
  · rintro ⟨a, ha, pick⟩
    exact ⟨a, (mem_of_mem_firsts ha).1, pick⟩
  · rintro ⟨a, ha, pick⟩
    obtain ⟨b, hb, key⟩ : ∃ b ∈ firsts [] desired, b.key = a.key := exists_first ha (by simp)
    have same := Attachment.eq_of_key (wd b (mem_of_mem_firsts hb).1) (wd a ha) key
    exact ⟨b, hb, by simpa [pick?, same] using pick⟩

theorem fixedClaims_complete :
    ∀ a ∈ desired, a.interface ≠ "" → ∀ e ∈ attached observed, e.key = a.key →
      a.key ∈ fixedClaims desired observed := by
  intro a ha named e he key
  exact mem_fixedClaims.mpr ⟨⟨a, ha, named, rfl⟩, e, he, key⟩

theorem compute_add_eq : (compute desired observed).add =
    (assign (attached observed) desired [] (fixedClaims desired observed)).1 := by
  simp only [compute, byKey_keys]
  rfl

/-- A plan gives up the last entry of each key that is left. -/
theorem compute_remove_eq : (compute desired observed).remove =
    ((attachedKeys observed).filter fun k => !(assign (attached observed) desired []
      (fixedClaims desired observed)).2.contains k).filterMap (removalOf? observed) := by
  simp only [compute, byKey_keys]
  exact removals_of_keys _ (fun k => !List.contains _ k) _

section
variable (tell : StatusEntry.KeysTell (attached observed)) (wd : ∀ a ∈ desired, a.Segmented)
include tell wd

theorem compute_add :
    (compute desired observed).add =
      (firsts [] desired).filter
        (isUnmet (attached observed) (fixedClaims desired observed)) := by
  rw [compute_add_eq]
  exact (assign_eq tell wd fixedClaims_complete claimed_at_first).1

theorem compute_remove :
    (compute desired observed).remove =
      (stale desired observed).filterMap (removalOf? observed) := by
  have same := (assign_eq tell wd fixedClaims_complete claimed_at_first).2
  rw [compute_remove_eq, stale]
  congr 1
  apply List.filter_congr
  intro k _
  have iff := same k
  rw [exists_pick_firsts wd] at iff
  have listed : k ∈ claims desired observed ↔ k ∈ fixedClaims desired observed ∨
      ∃ a ∈ desired, pick? (attached observed) (fixedClaims desired observed) a = some k := by
    simp [claims]
  rw [← listed] at iff
  simpa using iff

end

end Hotplug.Plan
