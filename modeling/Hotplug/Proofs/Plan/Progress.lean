import Hotplug.Proofs.Status.Merge
/-!
What is left to do after a pass that got part of the way. Every success takes exactly one
element off the plan: no partial success changes what the other requests claim. The answers of
the plugins are trusted to name the interface asked for, or one that nobody uses.
-/
namespace Hotplug.Plan

open Status Attachment StatusEntry

section
variable {α β : Type}

end

variable {desired : List Attachment} {observed : List StatusEntry}

/-- An interface that nothing attached and no request with an interface names. -/
def Unused (desired : List Attachment) (observed : List StatusEntry) (interface : String) : Prop :=
  (∀ e ∈ observed, e.interface ≠ interface) ∧
    ∀ a ∈ desired, a.interface ≠ "" → a.interface ≠ interface

/-- The answer names the interface asked for or, if none was, one that is unused. -/
def Faithful (desired : List Attachment) (observed : List StatusEntry) (o : Outcome) : Prop :=
  ∃ interface, o.plugged? = some interface ∧
    if o.attachment.interface = "" then Unused desired observed interface
    else interface = o.attachment.interface

/-- The first additions and the first removals of the plan succeeded. -/
structure Achieved (desired : List Attachment) (observed : List StatusEntry)
    (additions removals : Nat) (added : List Outcome) (removed : List Attachment) : Prop where
  added_eq : added.map (·.attachment) = (compute desired observed).add.take additions
  removed_eq : removed = (compute desired observed).remove.take removals
  faithful : ∀ o ∈ added, Faithful desired observed o

/-- What is recorded of an outcome. -/
structure Recorded (desired : List Attachment) (observed : List StatusEntry) (o : Outcome)
    (e : StatusEntry) : Prop where
  name : e.name = o.attachment.statusName
  named : o.attachment.interface ≠ "" → e.interface = o.attachment.interface
  unused : o.attachment.interface = "" → Unused desired observed e.interface

theorem recorded_of_faithful {o : Outcome} {e : StatusEntry}
    (faithful : Faithful desired observed o) (h : o.reported? = some e) :
    Recorded desired observed o e := by
  obtain ⟨interface, plugged, suits⟩ := faithful
  obtain ⟨d, hd, rfl⟩ := Outcome.reported?_of_plugged? plugged
  obtain rfl : d = e := Option.some.inj (hd.symm.trans h)
  refine ⟨(Outcome.reported?_name h).1, fun named => ?_, fun unnamed => ?_⟩
  · simpa [named] using suits
  · simpa [unnamed] using suits

variable {additions removals : Nat} {added : List Outcome} {removed : List Attachment}

theorem Achieved.recorded (done : Achieved desired observed additions removals added removed)
    {o : Outcome} (ho : o ∈ added) :
    ∃ e, o.reported? = some e ∧ Recorded desired observed o e := by
  obtain ⟨interface, plugged, suits⟩ := done.faithful o ho
  obtain ⟨e, he, -⟩ := Outcome.reported?_of_plugged? plugged
  exact ⟨e, he, recorded_of_faithful ⟨interface, plugged, suits⟩ he⟩

section
variable (wd : ∀ a ∈ desired, a.WellNamed) (wo : ∀ e ∈ attached observed, e.WellNamed)
  (done : Achieved desired observed additions removals added removed)
include wd wo done

theorem Achieved.was_unmet {o : Outcome} (ho : o ∈ added) :
    o.attachment ∈ firsts [] desired ∧
      isUnmet (attached observed) (fixedClaims desired observed) o.attachment = true := by
  have mem : o.attachment ∈ (compute desired observed).add := by
    apply List.mem_of_mem_take (i := additions)
    rw [← done.added_eq]
    exact List.mem_map_of_mem ho
  rw [compute_add (.of_wellNamed wo) (segmented_of_wellNamed wd)] at mem
  exact List.mem_filter.mp mem

theorem Achieved.wellNamed {o : Outcome} (ho : o ∈ added) : o.attachment.WellNamed :=
  wd _ (mem_of_mem_firsts (done.was_unmet wd wo ho).1).1

end

variable {o : Outcome} {e : StatusEntry}

theorem Recorded.wellNamed (written : Recorded desired observed o e)
    (wa : o.attachment.WellNamed) : e.WellNamed :=
  .spaced _ _ wa.ns_nonempty wa.name_nonempty wa.ns_clean wa.name_clean
    (written.name.trans (Attachment.statusName_of_ns wa.ns_nonempty))

theorem Recorded.key_eq (written : Recorded desired observed o e) (wa : o.attachment.WellNamed)
    (named : o.attachment.interface ≠ "") : e.key = o.attachment.key := by
  rw [StatusEntry.key, written.name, written.named named,
    Attachment.key_of_interface wa.ns_nonempty named]

section
variable (wd : ∀ a ∈ desired, a.WellNamed) (wo : ∀ e ∈ attached observed, e.WellNamed)
  (done : Achieved desired observed additions removals added removed)
include wd wo done

end

def sampleRequests : List Attachment :=
  [{ ns := "default", name := "a" }, { ns := "default", name := "a", interface := "eth1" },
    { ns := "default", name := "b", interface := "eth5" }, { ns := "default", name := "a" }]

def sampleStatus : List StatusEntry :=
  [{ name := "cluster", interface := "eth0", isDefault := true },
    { name := "default/a", interface := "eth1" }, { name := "default/c", interface := "eth4" },
    { name := "default/c", interface := "eth3" }, { name := "default/c", interface := "eth3" }]

def sampleAdded : List Outcome :=
  let result : Cni.Result := { interfaces := [{ name := "net1", sandbox := "/run/netns/a" }] }
  [{ attachment := { ns := "default", name := "a" }, response := some { result := some result } }]

def sampleRemoved : List Attachment := [{ ns := "default", name := "c", interface := "eth3" }]

theorem compute_sample : compute sampleRequests sampleStatus =
    { add := [{ ns := "default", name := "a" },
        { ns := "default", name := "b", interface := "eth5" }]
      remove := [{ ns := "default", name := "c", interface := "eth3" },
        { ns := "default", name := "c", interface := "eth4" }] } := by
  simp [compute, sampleRequests, sampleStatus, attached, Index.byKey, Index.keys, Index.last?,
    StatusEntry.key, assign, Plan.named, Attachment.key, candidate?, Attachment.statusName,
    namespacedName, least?, removal, List.eraseDups_cons, List.mergeSort, Text.splitOnce,
    List.MergeSort.Internal.splitInTwo]

end Hotplug.Plan
