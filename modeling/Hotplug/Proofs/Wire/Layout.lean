import Hotplug.Proofs.Wire.Padding
/-!
What a message is made of, and what has to be known of it for its values to come back from their
bytes: after its own writing, after maps were written in another order, and with unknown fields in
between. Only the shapes that the messages here have are laid out.
-/
namespace Hotplug.Wire

open Text

/-- The numbers that a message knows, the fields a value of it may have, one after another, when
no map in it repeats a key, and when two values differ only in the order of their maps. -/
structure Layout (ρ : Type) where
  known : List Nat
  Fields : Nat → ρ → List (List UInt8) → Prop
  Distinct : ρ → Prop
  Same : ρ → ρ → Prop

variable {ρ μ : Type} {depth number : Nat} {bytes : List UInt8}

/-- The value's fields, with unknown ones in between, all inside fewer than so many others. -/
def Layout.Spells (layout : Layout ρ) (depth : Nat) (message : ρ) (bytes : List UInt8) : Prop :=
  ∃ fields, layout.Fields depth message fields ∧ Padded layout.known depth fields bytes

/-- What is written is one of the spellings, and every spelling is read back. -/
structure Layout.Faithful (layout : Layout ρ) (read : List UInt8 → Option ρ)
    (write : ρ → List UInt8) : Prop where
  spells : ∀ message, layout.Spells greatestDepth message (write message)
  reads : ∀ message, layout.Distinct message → Fits (write message) →
    read (write message) = some message
  padded : ∀ message written bytes, layout.Distinct message → layout.Same written message →
    layout.Spells greatestDepth written bytes → Fits bytes →
    ∃ found, read bytes = some found ∧ layout.Same found message

structure Layout.Follows (layout : Layout ρ) (merge : Merge ρ) (blank : ρ)
    (write : ρ → List UInt8) : Prop where
  foreign : ∀ number, number ∉ layout.known → Ignores merge number
  takes : ∀ {depth message fields}, layout.Distinct message →
    layout.Fields depth message fields → (∀ field ∈ fields, Fits field) →
    TakesAll merge depth fields blank message
  writes : ∀ depth message, ∃ fields, layout.Fields depth message fields ∧
    fields.flatten = write message
  distinct : ∀ {written message}, layout.Same written message → layout.Distinct message →
    layout.Distinct written

namespace Layout.Follows

variable {layout : Layout ρ} {merge : Merge ρ} {blank message : ρ} {write : ρ → List UInt8}

theorem reads (follows : layout.Follows merge blank write) (distinct : layout.Distinct message)
    (spelled : layout.Spells depth message bytes) (fits : Fits bytes) :
    Reads merge depth bytes blank message := by
  obtain ⟨fields, own, padded⟩ := spelled
  have takes := follows.takes distinct own (fits_each padded fits)
  exact padded.reads follows.foreign takes

theorem spells (follows : layout.Follows merge blank write) (depth : Nat) (message : ρ) :
    layout.Spells depth message (write message) := by
  obtain ⟨fields, own, whole⟩ := follows.writes depth message
  have padded := padded_flatten layout.known depth fields
  rw [whole] at padded
  exact ⟨fields, own, padded⟩

theorem decode (follows : layout.Follows merge blank write) (distinct : layout.Distinct message)
    (spelled : layout.Spells greatestDepth message bytes) (fits : Fits bytes) :
    decode merge blank bytes = some message :=
  follows.reads distinct spelled fits _ (Nat.lt_succ_self _)

theorem faithful (follows : layout.Follows merge blank write) :
    layout.Faithful (Wire.decode merge blank) write where
  spells := follows.spells greatestDepth
  reads := by
    intro message distinct fits
    exact follows.decode distinct (follows.spells greatestDepth message) fits
  padded := by
    intro message written bytes distinct same spelled fits
    have found := follows.decode (follows.distinct same distinct) spelled fits
    exact ⟨written, found, same⟩

end Layout.Follows

def DistinctKeys (entries : TextMap) : Prop := (entries.map Prod.fst).Nodup

theorem DistinctKeys.perm {entries others : TextMap} (distinct : DistinctKeys others)
    (same : entries.Perm others) : DistinctKeys entries :=
  (same.map Prod.fst).nodup_iff.mpr distinct

def Entries (number depth : Nat) (entries : TextMap) (fields : List (List UInt8)) : Prop :=
  List.Forall₂ (Embeds number (SpellsEntry (depth - 1))) entries fields

theorem exists_entries (number depth : Nat) (entries : TextMap) :
    ∃ fields, Entries number depth entries fields ∧ fields.flatten = writeMap number entries :=
  exists_embeds (spellsEntry_written (depth - 1)) number entries

def mapped (number : Nat) (entries : ρ → TextMap) : Layout ρ where
  known := [number]
  Fields depth message fields := Entries number depth (entries message) fields
  Distinct message := DistinctKeys (entries message)
  Same message other := (entries message).Perm (entries other)

def labelled (number : Nat) (text : ρ → String) (entries : ρ → TextMap) : Layout ρ where
  known := [1, number]
  Fields depth message fields := ∃ labels, Entries number depth (entries message) labels ∧
    fields = textFields 1 (text message) ++ labels
  Distinct message := DistinctKeys (entries message)
  Same message other := text message = text other ∧ (entries message).Perm (entries other)

section
variable {merge : Merge ρ} {text : ρ → String} {entries : ρ → TextMap} {setText : String → ρ → ρ}
  {setEntries : TextMap → ρ → ρ}

theorem follows_mapped (build : TextMap → ρ) (positive : 0 < number) (small : number < 2 ^ 29)
    (foreign : ∀ other, other ∉ [number] → Ignores merge other)
    (takes_entries : Handles merge number (mapField entries setEntries))
    (get_build : ∀ own, entries (build own) = own)
    (set_build : ∀ own new, setEntries new (build own) = build new)
    (eta : ∀ message, build (entries message) = message) :
    (mapped number entries).Follows merge (build [])
      fun message => writeMap number (entries message) where
  foreign := foreign
  takes := by
    intro depth message fields distinct spelled fits
    have all := takesAll_map positive small takes_entries build get_build set_build distinct fits
      spelled
    rwa [eta] at all
  writes depth message := exists_entries number depth (entries message)
  distinct same distinct := distinct.perm same

theorem follows_labelled (build : String → TextMap → ρ) (positive : 0 < number)
    (small : number < 2 ^ 29) (foreign : ∀ other, other ∉ [1, number] → Ignores merge other)
    (takes_text : Handles merge 1 (textField setText))
    (takes_entries : Handles merge number (mapField entries setEntries))
    (set_text : ∀ own, setText own (build "" []) = build own [])
    (get_build : ∀ own labels, entries (build own labels) = labels)
    (set_build : ∀ own labels new, setEntries new (build own labels) = build own new)
    (eta : ∀ message, build (text message) (entries message) = message) :
    (labelled number text entries).Follows merge (build "" [])
      fun message => writeText 1 (text message) ++ writeMap number (entries message) where
  foreign := foreign
  takes := by
    intro depth message fields distinct spelled fits
    obtain ⟨labels, spelled, rfl⟩ := spelled
    have first : TakesAll merge depth (textFields 1 (text message)) (build "" [])
        (setText (text message) (build "" [])) := by
      apply takesAll_text (by decide) (by decide) takes_text _ (set_text "")
      intro field mem
      exact fits field (List.mem_append_left _ mem)
    have second : TakesAll merge depth labels (build (text message) [])
        (build (text message) (entries message)) := by
      apply takesAll_map positive small takes_entries (build (text message))
        (get_build (text message)) (set_build (text message)) distinct _ spelled
      intro field mem
      exact fits field (List.mem_append_right _ mem)
    rw [set_text] at first
    rw [eta] at second
    exact first.append second
  writes := by
    intro depth message
    obtain ⟨labels, spelled, whole⟩ := exists_entries number depth (entries message)
    refine ⟨_, ⟨labels, spelled, rfl⟩, ?_⟩
    rw [List.flatten_append, flatten_textFields, whole]
  distinct same distinct := distinct.perm same.2

end

def nested (number : Nat) (inner : Layout μ) (values : ρ → List μ) : Layout ρ where
  known := [number]
  Fields depth message fields :=
    List.Forall₂ (Embeds number (inner.Spells (depth - 1))) (values message) fields
  Distinct message := ∀ value ∈ values message, inner.Distinct value
  Same message other := List.Forall₂ inner.Same (values message) (values other)

theorem distinct_values {inner : Layout μ} {own others : List μ}
    (transfer : ∀ {value other}, inner.Same value other → inner.Distinct other →
      inner.Distinct value) (same : List.Forall₂ inner.Same own others)
    (distinct : ∀ other ∈ others, inner.Distinct other) : ∀ value ∈ own, inner.Distinct value := by
  induction same with
  | nil => simp
  | cons first _ ih =>
    rw [List.forall_mem_cons] at distinct ⊢
    exact ⟨transfer first distinct.1, ih distinct.2⟩

/-- Where each of the nested messages is read onto a blank one. -/
theorem follows_nested {inner : Layout μ} {innerMerge : Merge μ} {innerBlank : μ}
    {innerWrite : μ → List UInt8} {merge : Merge ρ} {values : ρ → List μ} {get : ρ → μ}
    {set : μ → ρ → ρ} (build : List μ → ρ) (follows : inner.Follows innerMerge innerBlank innerWrite)
    (positive : 0 < number) (small : number < 2 ^ 29)
    (foreign : ∀ other, other ∉ [number] → Ignores merge other)
    (takes_message : Handles merge number (messageField innerMerge get set))
    (onto_blank : ∀ message front value back, values message = front ++ value :: back →
      get (build front) = innerBlank ∧ set value (build front) = build (front ++ [value]))
    (eta : ∀ message, build (values message) = message) :
    (nested number inner values).Follows merge (build [])
      fun message => (values message).flatMap fun value => writeBytes number (innerWrite value) where
  foreign := foreign
  takes := by
    intro depth message fields distinct spelled fits
    have all : TakesAll merge depth fields (build []) (build ([] ++ values message)) := by
      apply takesAll_list spelled []
      intro front value back field split mem embeds
      rw [List.nil_append] at split
      obtain ⟨content, rfl, spells⟩ := embeds
      obtain ⟨blank, next⟩ := onto_blank message front value back split
      have own : inner.Distinct value := by
        apply distinct
        rw [split]
        exact List.mem_append_right _ List.mem_cons_self
      have reads := follows.reads own spells (fits_content (fits _ mem))
      rw [← blank] at reads
      rw [← next]
      exact Wire.takes_message positive small takes_message (fits _ mem) reads
    rwa [List.nil_append, eta] at all
  writes := by
    intro depth message
    exact exists_embeds (follows.spells (depth - 1)) number (values message)
  distinct same distinct := distinct_values follows.distinct same distinct

end Hotplug.Wire
