import Hotplug.Attachment.Parse
import Hotplug.Proofs.Json.Scan
/-!
What a pod asks for once it was read: every attachment has a namespace. Which attachments an
annotation stands for is not covered.
-/
namespace Hotplug

section
variable {α β ε : Type} {f : α → Except ε β} {xs : List α}

theorem mapM_ok {ys : List β} (h : xs.mapM f = .ok ys) : ∀ y ∈ ys, ∃ x ∈ xs, f x = .ok y := by
  induction xs generalizing ys with
  | nil =>
    obtain rfl := Except.ok.inj h
    simp
  | cons x xs ih =>
    rw [List.mapM_cons] at h
    obtain ⟨y, first, h⟩ := Json.bind_ok.mp h
    obtain ⟨more, rest, h⟩ := Json.bind_ok.mp h
    obtain rfl := Except.ok.inj h
    intro z mem
    rcases List.mem_cons.mp mem with rfl | later
    · exact ⟨x, by simp, first⟩
    · obtain ⟨w, hw, eq⟩ := ih rest z later
      exact ⟨w, List.mem_cons_of_mem x hw, eq⟩

theorem mapM_ok_each {ys : List β} (h : xs.mapM f = .ok ys) : ∀ x ∈ xs, ∃ y, f x = .ok y := by
  induction xs generalizing ys with
  | nil => simp
  | cons x xs ih =>
    rw [List.mapM_cons] at h
    obtain ⟨y, first, h⟩ := Json.bind_ok.mp h
    obtain ⟨more, rest, -⟩ := Json.bind_ok.mp h
    exact List.forall_mem_cons.mpr ⟨⟨y, first⟩, ih rest⟩

theorem mapM_of_ok {g : α → β} (all : ∀ x ∈ xs, f x = .ok (g x)) :
    xs.mapM f = .ok (xs.map g) := by
  induction xs with
  | nil => rfl
  | cons x xs ih =>
    have rest := ih fun y mem => all y (List.mem_cons_of_mem x mem)
    rw [List.mapM_cons, all x List.mem_cons_self, rest]
    rfl

theorem mapM_of_error {good rest : List α} {bad : α} {e : ε}
    (before : ∀ x ∈ good, ∃ y, f x = .ok y) (fails : f bad = .error e) :
    (good ++ bad :: rest).mapM f = .error e := by
  induction good with
  | nil =>
    rw [List.nil_append, List.mapM_cons, fails]
    rfl
  | cons x good ih =>
    obtain ⟨y, first⟩ := before x List.mem_cons_self
    have later := ih fun z mem => before z (List.mem_cons_of_mem x mem)
    rw [List.cons_append, List.mapM_cons, first, later]
    rfl

end

theorem Attachment.settle_spaced {a b : Attachment} {defaultNs : String} (ns : defaultNs ≠ "")
    (settled : settle defaultNs a = .ok b) : b.ns ≠ "" := by
  dsimp only [settle] at settled
  cases valid : (if a.ns.isEmpty then { a with ns := defaultNs } else a).validate with
  | error fault =>
    rw [valid] at settled
    cases settled
  | ok _ =>
    rw [valid] at settled
    obtain rfl := Except.ok.inj settled
    split
    · exact ns
    · rename_i spaced
      simpa using spaced

theorem Attachment.parse_spaced {raw defaultNs : String} {desired : List Attachment}
    (ns : defaultNs ≠ "") (read : parse raw defaultNs = .ok desired) :
    ∀ a ∈ desired, a.ns ≠ "" := by
  unfold parse at read
  split at read
  · cases read
  · obtain ⟨all, -, settled⟩ := Json.bind_ok.mp read
    intro a mem
    obtain ⟨b, -, settle⟩ := mapM_ok settled a mem
    exact settle_spaced ns settle

theorem Pod.desired_spaced {pod : Pod} {desired : List Attachment} (ns : pod.ns.getD "" ≠ "")
    (read : pod.desired = .ok desired) : ∀ a ∈ desired, a.ns ≠ "" := by
  unfold Pod.desired at read
  split at read
  · split at read
    · obtain rfl := Except.ok.inj read
      simp
    · exact Attachment.parse_spaced ns read
  · obtain rfl := Except.ok.inj read
    simp

end Hotplug
