import Hotplug.Plan
import Hotplug.Proofs.Text.Pieces
/-!
Names without slashes, and what the keys made of them tell. A namespace and a name can be read
back from a key whatever interface follows; a name alone only if the interface has no slash.
The attachment that gives an entry up has the entry's own key. Names that contain slashes
themselves are not covered.
-/
namespace Hotplug

def Clean (text : String) : Prop := '/' ∉ text.toList

structure Attachment.WellNamed (a : Attachment) : Prop where
  ns_nonempty : a.ns ≠ ""
  name_nonempty : a.name ≠ ""
  ns_clean : Clean a.ns
  name_clean : Clean a.name

/-- Namespace and name can be read back from the key, though the name may be empty. -/
structure Attachment.Segmented (a : Attachment) : Prop where
  ns_nonempty : a.ns ≠ ""
  ns_clean : Clean a.ns
  name_clean : Clean a.name

/-- An entry of a network with a namespace, or of one without whose interface is clean. -/
inductive StatusEntry.WellNamed (e : StatusEntry) : Prop where
  | spaced (ns name : String) (ns_nonempty : ns ≠ "") (name_nonempty : name ≠ "")
      (ns_clean : Clean ns) (name_clean : Clean name) (eq : e.name = namespacedName ns name)
  | plain (name_nonempty : e.name ≠ "") (name_clean : Clean e.name)
      (interface_clean : Clean e.interface)

/-- The namespace is given, but empty. -/
def StatusEntry.Slashed (e : StatusEntry) : Prop := e.name.toList.head? = some '/'

theorem first_slash_unique {xs ys is js : List Char} (h : xs ++ '/' :: is = ys ++ '/' :: js)
    (hx : '/' ∉ xs) (hy : '/' ∉ ys) : xs = ys ∧ is = js := by
  rcases List.append_eq_append_iff.mp h with ⟨as, rfl, hs⟩ | ⟨as, rfl, hs⟩
  · cases as with
    | nil => simp_all
    | cons c as =>
      obtain ⟨rfl, -⟩ := List.cons.inj hs
      exact absurd (by simp) hy
  · cases as with
    | nil => simp_all
    | cons c as =>
      obtain ⟨rfl, -⟩ := List.cons.inj hs
      exact absurd (by simp) hx

theorem segment_unique {ns ns' rest rest' : String} (h : ns ++ "/" ++ rest = ns' ++ "/" ++ rest')
    (clean : Clean ns) (clean' : Clean ns') : ns = ns' ∧ rest = rest' := by
  have chars : ns.toList ++ '/' :: rest.toList = ns'.toList ++ '/' :: rest'.toList := by
    simpa using congrArg String.toList h
  obtain ⟨heads, tails⟩ := first_slash_unique chars clean clean'
  exact ⟨String.toList_injective heads, String.toList_injective tails⟩

theorem not_clean_joined (x y : String) : ¬ Clean (x ++ "/" ++ y) := by simp [Clean]

theorem joined_assoc (x y z : String) :
    x ++ "/" ++ y ++ "/" ++ z = x ++ "/" ++ (y ++ "/" ++ z) := by
  simp [String.append_assoc]

/-- Namespace, name and what follows them, whether or not that has slashes. -/
theorem segments_unique {ns ns' name name' rest rest' : String}
    (h : ns ++ "/" ++ name ++ "/" ++ rest = ns' ++ "/" ++ name' ++ "/" ++ rest')
    (ns_clean : Clean ns) (ns_clean' : Clean ns') (name_clean : Clean name)
    (name_clean' : Clean name') : ns = ns' ∧ name = name' ∧ rest = rest' := by
  rw [joined_assoc, joined_assoc] at h
  obtain ⟨same, tails⟩ := segment_unique h ns_clean ns_clean'
  exact ⟨same, segment_unique tails name_clean name_clean'⟩

theorem splitNamespacedName_joined {ns name : String} (ns_clean : Clean ns)
    (name_clean : Clean name) :
    splitNamespacedName (namespacedName ns name) = some (ns, name) := by
  have chars : (namespacedName ns name).toList = ns.toList ++ '/' :: name.toList := by
    simp [namespacedName]
  unfold splitNamespacedName
  rw [chars, Text.splitAt_append ns_clean, Text.splitAt_clean name_clean]
  simp

namespace Attachment

variable {a b : Attachment}

theorem statusName_of_ns (nonempty : a.ns ≠ "") : a.statusName = a.ns ++ "/" ++ a.name := by
  simp [statusName, nonempty, namespacedName]

theorem key_of_interface (nonempty : a.ns ≠ "") (named : a.interface ≠ "") :
    a.key = a.statusName ++ "/" ++ a.interface := by
  simp [key, named, statusName_of_ns nonempty]

theorem key_of_no_interface (nonempty : a.ns ≠ "") (unnamed : a.interface = "") :
    a.key = a.statusName := by
  simp [key, unnamed, statusName_of_ns nonempty, namespacedName]

theorem WellNamed.segmented (wa : a.WellNamed) : a.Segmented :=
  ⟨wa.ns_nonempty, wa.ns_clean, wa.name_clean⟩

theorem segmented_of_wellNamed {desired : List Attachment} (wd : ∀ a ∈ desired, a.WellNamed) :
    ∀ a ∈ desired, a.Segmented :=
  fun a ha => (wd a ha).segmented

theorem bare_key_ne (wa : a.Segmented) (wb : b.Segmented) (unnamed : a.interface = "")
    (named : b.interface ≠ "") : a.key ≠ b.key := by
  intro h
  rw [key_of_no_interface wa.ns_nonempty unnamed, key_of_interface wb.ns_nonempty named,
    statusName_of_ns wa.ns_nonempty, statusName_of_ns wb.ns_nonempty, joined_assoc] at h
  have names := (segment_unique h wa.ns_clean wb.ns_clean).2
  exact not_clean_joined _ _ (names ▸ wa.name_clean)

theorem eq_of_key (wa : a.Segmented) (wb : b.Segmented) (h : a.key = b.key) :
    a.statusName = b.statusName ∧ a.interface = b.interface := by
  by_cases ha : a.interface = "" <;> by_cases hb : b.interface = ""
  · rw [key_of_no_interface wa.ns_nonempty ha, key_of_no_interface wb.ns_nonempty hb] at h
    exact ⟨h, ha.trans hb.symm⟩
  · exact absurd h (bare_key_ne wa wb ha hb)
  · exact absurd h.symm (bare_key_ne wb wa hb ha)
  · rw [key_of_interface wa.ns_nonempty ha, key_of_interface wb.ns_nonempty hb,
      statusName_of_ns wa.ns_nonempty, statusName_of_ns wb.ns_nonempty] at h
    obtain ⟨ns, name, interface⟩ :=
      segments_unique h wa.ns_clean wb.ns_clean wa.name_clean wb.name_clean
    refine ⟨?_, interface⟩
    rw [statusName_of_ns wa.ns_nonempty, statusName_of_ns wb.ns_nonempty, ns, name]

end Attachment

namespace StatusEntry

variable {d e : StatusEntry}

theorem eq_of_key (wd : d.WellNamed) (we : e.WellNamed) (h : d.key = e.key) :
    d.name = e.name ∧ d.interface = e.interface := by
  unfold key at h
  cases wd with
  | spaced ns name _ _ ns_clean name_clean eq =>
    cases we with
    | spaced ns' name' _ _ ns_clean' name_clean' eq' =>
      rw [eq, eq'] at h
      obtain ⟨rfl, rfl, interface⟩ :=
        segments_unique h ns_clean ns_clean' name_clean name_clean'
      exact ⟨eq.trans eq'.symm, interface⟩
    | plain _ clean interface =>
      rw [eq, namespacedName, joined_assoc] at h
      have tails := (segment_unique h ns_clean clean).2
      exact absurd (tails ▸ interface) (not_clean_joined _ _)
  | plain _ clean interface =>
    cases we with
    | spaced ns' name' _ _ ns_clean' name_clean' eq' =>
      rw [eq', namespacedName, joined_assoc] at h
      have tails := (segment_unique h clean ns_clean').2
      exact absurd (tails ▸ interface) (not_clean_joined _ _)
    | plain _ clean' _ => exact segment_unique h clean clean'

def KeysTell (entries : List StatusEntry) : Prop :=
  ∀ d ∈ entries, ∀ e ∈ entries, d.key = e.key → d.name = e.name ∧ d.interface = e.interface

theorem KeysTell.of_wellNamed {entries : List StatusEntry}
    (named : ∀ e ∈ entries, e.WellNamed) : KeysTell entries :=
  fun d hd e he => eq_of_key (named d hd) (named e he)

end StatusEntry

namespace Plan

open Status

variable {d e : StatusEntry}

theorem removal_interface (e : StatusEntry) : (removal e).interface = e.interface := by
  unfold removal
  split <;> rfl

/-- A name is cut at its first slash, so all but an empty namespace is put back. -/
theorem removal_statusName_of_not_slashed (front : ¬ e.Slashed) :
    (removal e).statusName = e.name := by
  unfold removal
  split
  · rename_i ns name found
    have chars := Text.splitOnce_eq_some found
    have nonempty : String.ofList ns ≠ "" := by
      intro empty
      obtain rfl : ns = [] := by simpa using empty
      exact front (by rw [StatusEntry.Slashed, chars]; rfl)
    rw [Attachment.statusName_of_ns nonempty]
    apply String.toList_injective
    simp [chars]
  · rfl

/-- Giving an entry up strikes that very key out of the status. -/
theorem removalKey_of_not_slashed (front : ¬ e.Slashed) : removalKey (removal e) = e.key := by
  rw [removalKey, removal_statusName_of_not_slashed front, removal_interface, StatusEntry.key]

end Plan

end Hotplug
