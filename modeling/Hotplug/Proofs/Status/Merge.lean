import Hotplug.Proofs.Plan.Claims
/-!
What a merge does to the attached entries, and what it records of an outcome: an entry of the
attachment's network that is not the default one. Which addresses the entry carries is not
covered.
-/
namespace Hotplug

open Plan

namespace Outcome

def plugged? (o : Outcome) : Option String := o.reported?.map (·.interface)

theorem reported?_name {o : Outcome} {e : StatusEntry} (h : o.reported? = some e) :
    e.name = o.attachment.statusName ∧ e.isDefault = false := by
  simp only [reported?, Option.bind_eq_bind, Option.bind_eq_some_iff] at h
  obtain ⟨response, -, result, -, entry⟩ := h
  have eq : StatusEntry.ofResult o.attachment.statusName result o.attachment.interface = e :=
    Option.some.inj entry
  subst eq
  exact ⟨rfl, rfl⟩

theorem reported?_of_plugged? {o : Outcome} {interface : String}
    (h : o.plugged? = some interface) :
    ∃ e, o.reported? = some e ∧ e.interface = interface := by
  simpa [plugged?] using h

end Outcome

namespace Status

variable {current : List StatusEntry} {added : List Outcome} {removed : List Attachment}

def gone (removed : List Attachment) : List String := removed.map removalKey

theorem mem_attached_merge {e : StatusEntry} :
    e ∈ attached (merge current added removed) ↔
      (e ∈ attached current ∧ e.key ∉ gone removed) ∨
        ∃ o ∈ added, o.isValid = true ∧ o.reported? = some e := by
  have own : ∀ o ∈ added, o.reported? = some e → e.isDefault = false :=
    fun o _ h => (Outcome.reported?_name h).2
  simp only [mem_attached, merge, gone, List.mem_append, List.mem_filter, List.mem_filterMap,
    Bool.or_eq_true, Bool.not_eq_true', List.contains_eq_mem, decide_eq_false_iff_not]
  constructor
  · rintro ⟨⟨mem, default | stays⟩ | ⟨o, ⟨ho, valid⟩, reported⟩, kept⟩
    · simp [default] at kept
    · exact .inl ⟨⟨mem, kept⟩, stays⟩
    · exact .inr ⟨o, ho, valid, reported⟩
  · rintro (⟨⟨mem, kept⟩, stays⟩ | ⟨o, ho, valid, reported⟩)
    · exact ⟨.inl ⟨mem, .inr stays⟩, kept⟩
    · exact ⟨.inr ⟨o, ⟨ho, valid⟩, reported⟩, own o ho reported⟩

end Status

end Hotplug
