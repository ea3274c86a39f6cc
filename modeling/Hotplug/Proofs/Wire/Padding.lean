import Hotplug.Proofs.Wire.Spelling
import Mathlib.Data.List.Forall2
/-!
Messages with fields in between that they do not know. The fields that a message knows are read
one after another, and what stands before, between and behind them changes nothing. Which fields
a message knows, and what they mean to it, is not covered.
-/
namespace Hotplug.Wire

open Text

section
variable {ρ : Type}

/-- The bytes are read into a message to their end. -/
def Reads (merge : Merge ρ) (depth : Nat) (bytes : List UInt8) (before after : ρ) : Prop :=
  ∀ fuel, bytes.length < fuel → mergeFields merge depth fuel bytes before = some after

/-- One field is read into a message, whatever follows it. -/
def Takes (merge : Merge ρ) (depth : Nat) (field : List UInt8) (before after : ρ) : Prop :=
  ∃ number kind key value, field = key ++ value ∧ Key number kind key ∧
    ∀ rest, merge depth number kind (value ++ rest) before = some (after, rest)

inductive TakesAll (merge : Merge ρ) (depth : Nat) : List (List UInt8) → ρ → ρ → Prop
  | nil {message : ρ} : TakesAll merge depth [] message message
  | cons {field : List UInt8} {fields : List (List UInt8)} {before between after : ρ} :
    Takes merge depth field before between → TakesAll merge depth fields between after →
    TakesAll merge depth (field :: fields) before after

def Ignores (merge : Merge ρ) (number : Nat) : Prop :=
  ∀ depth kind bytes message, merge depth number kind bytes message =
    ignore depth number kind bytes message

variable {merge : Merge ρ} {depth number : Nat} {before between after message : ρ}
  {field bytes rest pad content : List UInt8} {fields more : List (List UInt8)}

theorem reads_nil : Reads merge depth [] message message := by
  intro fuel enough
  cases fuel <;> rfl

theorem mergeFields_succ (nonempty : bytes ≠ []) (fuel : Nat) :
    mergeFields merge depth (fuel + 1) bytes message =
      (readKey bytes).bind fun x => (merge depth x.1 x.2.1 x.2.2 message).bind fun y =>
        mergeFields merge depth fuel y.2 y.1 := by
  cases bytes with
  | nil => exact absurd rfl nonempty
  | cons b bytes => rfl

theorem Takes.reads (takes : Takes merge depth field before between)
    (reads : Reads merge depth rest between after) :
    Reads merge depth (field ++ rest) before after := by
  obtain ⟨number, kind, key, value, rfl, spelled, taken⟩ := takes
  intro fuel enough
  have progress := spelled.length_pos
  simp only [List.length_append] at enough
  obtain ⟨less, rfl⟩ : ∃ less, fuel = less + 1 := ⟨fuel - 1, by omega⟩
  have onward := reads less (by omega)
  have nonempty : key ++ (value ++ rest) ≠ [] := by
    apply List.append_ne_nil_of_left_ne_nil
    exact List.ne_nil_of_length_pos progress
  rw [List.append_assoc, mergeFields_succ nonempty, spelled.read, Option.bind_some, taken,
    Option.bind_some, onward]

theorem TakesAll.append (first : TakesAll merge depth fields before between)
    (second : TakesAll merge depth more between after) :
    TakesAll merge depth (fields ++ more) before after := by
  induction first with
  | nil => exact second
  | cons takes _ ih => exact .cons takes (ih second)

theorem Fields.reads {allowed : Nat → Prop} (fields : Fields allowed depth pad)
    (foreign : ∀ number, allowed number → Ignores merge number)
    (reads : Reads merge depth rest before after) :
    Reads merge depth (pad ++ rest) before after := by
  induction fields with
  | nothing => exact reads
  | @plain allowed depth number kind key value more unknown spelled own _ ih =>
    have takes : Takes merge (depth + 1) (key ++ value) before before := by
      refine ⟨number, kind, key, value, rfl, spelled, ?_⟩
      intro later
      rw [foreign number unknown, ignore, skip_plain own, Option.map_some]
    have whole := takes.reads (ih foreign reads)
    simpa only [List.append_assoc] using whole
  | @group allowed depth number start inside stop more unknown opens fields closes _ _ ih =>
    have takes : Takes merge (depth + 1) (start ++ (inside ++ stop)) before before := by
      refine ⟨number, .groupStart, start, inside ++ stop, rfl, opens, ?_⟩
      intro later
      rw [foreign number unknown, ignore, List.append_assoc, skip_group fields closes,
        Option.map_some]
    have whole := takes.reads (ih foreign reads)
    simpa only [List.append_assoc] using whole

/-- The fields in their order, with fields of unknown numbers before, between and behind them. -/
inductive Padded (known : List Nat) (depth : Nat) : List (List UInt8) → List UInt8 → Prop
  | ends {pad : List UInt8} : Fields (· ∉ known) depth pad → Padded known depth [] pad
  | field {pad field bytes : List UInt8} {fields : List (List UInt8)} :
    Fields (· ∉ known) depth pad → Padded known depth fields bytes →
    Padded known depth (field :: fields) (pad ++ (field ++ bytes))

variable {known : List Nat}

theorem Padded.reads (padded : Padded known depth fields bytes)
    (foreign : ∀ number, number ∉ known → Ignores merge number)
    (takes : TakesAll merge depth fields before after) :
    Reads merge depth bytes before after := by
  induction padded generalizing before with
  | ends pad =>
    cases takes
    have nothing : Reads merge depth [] after after := reads_nil
    have whole := pad.reads foreign nothing
    rwa [List.append_nil] at whole
  | field pad _ ih =>
    cases takes with
    | cons first rest => exact pad.reads foreign (first.reads (ih rest))

theorem Padded.length_le (padded : Padded known depth fields bytes) :
    ∀ field ∈ fields, field.length ≤ bytes.length := by
  induction padded with
  | ends _ => simp
  | field _ _ ih =>
    intro own mem
    simp only [List.length_append]
    rcases List.mem_cons.mp mem with rfl | later
    · omega
    · have inside := ih own later
      omega

theorem padded_flatten (known : List Nat) (depth : Nat) (fields : List (List UInt8)) :
    Padded known depth fields fields.flatten := by
  induction fields with
  | nil => exact .ends .nothing
  | cons field fields ih =>
    have front : Fields (· ∉ known) depth [] := .nothing
    exact .field front ih

def Fits (bytes : List UInt8) : Prop := bytes.length < 2 ^ 64

theorem Fits.mono (fits : Fits bytes) (shorter : content.length ≤ bytes.length) : Fits content :=
  Nat.lt_of_le_of_lt shorter fits

theorem fits_content (fits : Fits (writeBytes number content)) : Fits content := by
  apply fits.mono
  simp only [writeBytes, List.length_append]
  omega

def Handles (merge : Merge ρ) (number : Nat) (own : Merge ρ) : Prop :=
  ∀ depth, merge depth number = own depth number

section
variable (positive : 0 < number) (small : number < 2 ^ 29)
include positive small

theorem takes_bytes (fits : Fits (writeBytes number content))
    (taken : ∀ length, Varint content.length length → ∀ rest,
      merge depth number .bytes (length ++ (content ++ rest)) before = some (after, rest)) :
    Takes merge depth (writeBytes number content) before after := by
  have length := varint_writeVarint (fits_content fits)
  refine ⟨number, .bytes, writeKey number .bytes, writeVarint content.length ++ content, ?_,
    key_writeKey positive small .bytes, ?_⟩
  · rw [writeBytes, List.append_assoc]
  · intro rest
    rw [List.append_assoc]
    exact taken _ length rest

theorem takes_text {set : String → ρ → ρ} (handles : Handles merge number (textField set))
    {text : String} (fits : Fits (writeBytes number (bytesOf text))) (message : ρ) :
    Takes merge depth (writeBytes number (bytesOf text)) message (set text message) := by
  apply takes_bytes positive small fits
  intro length spelled rest
  rw [handles, textField, if_pos rfl, readText_spelled spelled, Option.map_some]

theorem takes_flag {set : Bool → ρ → ρ} (handles : Handles merge number (flagField set))
    (message : ρ) :
    Takes merge depth (writeKey number .varint ++ [1]) message (set true message) := by
  refine ⟨number, .varint, writeKey number .varint, [1], rfl,
    key_writeKey positive small .varint, ?_⟩
  intro rest
  have septets : Septets 1 [1] := .last (b := 1) (by decide)
  have one : Varint 1 [1] := ⟨septets, by decide, by decide⟩
  rw [handles, flagField, if_pos rfl, one.read, Option.map_some]
  rfl

theorem takes_message {μ : Type} {inner : Merge μ} {get : ρ → μ} {set : μ → ρ → ρ} {value : μ}
    (handles : Handles merge number (messageField inner get set))
    (fits : Fits (writeBytes number content))
    (reads : Reads inner (depth - 1) content (get message) value) :
    Takes merge depth (writeBytes number content) message (set value message) := by
  apply takes_bytes positive small fits
  intro length spelled rest
  have read : mergeAll inner (depth - 1) content (get message) = some value :=
    reads _ (Nat.lt_succ_self _)
  rw [handles, messageField, if_pos rfl, readBytes_spelled spelled]
  simp [read]

theorem takes_entry {get : ρ → TextMap} {set : TextMap → ρ → ρ} {key value : String}
    (handles : Handles merge number (mapField get set)) (fits : Fits (writeBytes number content))
    (reads : Reads mergeEntry (depth - 1) content ("", "") (key, value)) :
    Takes merge depth (writeBytes number content) message
      (set (TextMap.insert (get message) key value) message) := by
  apply takes_bytes positive small fits
  intro length spelled rest
  have read : mergeAll mergeEntry (depth - 1) content ("", "") = some (key, value) :=
    reads _ (Nat.lt_succ_self _)
  rw [handles, mapField, readBytes_spelled spelled]
  simp [read]

end

/-- Fields that build a list up, one element each. -/
theorem takesAll_list {α : Type} {spells : α → List UInt8 → Prop} {build : List α → ρ}
    {xs : List α} (spelled : List.Forall₂ spells xs fields) (done : List α)
    (each : ∀ front x back field, done ++ xs = front ++ x :: back → field ∈ fields →
      spells x field → Takes merge depth field (build front) (build (front ++ [x]))) :
    TakesAll merge depth fields (build done) (build (done ++ xs)) := by
  induction spelled generalizing done with
  | nil =>
    rw [List.append_nil]
    exact .nil
  | @cons x field xs fields first rest ih =>
    have takes := each done x xs field rfl List.mem_cons_self first
    have onward := ih (done ++ [x]) (by
      intro front y back own split mem
      rw [List.append_assoc] at split
      exact each front y back own split (List.mem_cons_of_mem field mem))
    rw [List.append_assoc] at onward
    exact .cons takes onward

end

def textFields (number : Nat) (text : String) : List (List UInt8) :=
  if text.isEmpty then [] else [writeBytes number (bytesOf text)]

def flagFields (number : Nat) (flag : Bool) : List (List UInt8) :=
  if flag then [writeKey number .varint ++ [1]] else []

def Embeds {α : Type} (number : Nat) (spells : α → List UInt8 → Prop) (value : α)
    (field : List UInt8) : Prop :=
  ∃ content, field = writeBytes number content ∧ spells value content

def SpellsEntry (depth : Nat) (entry : String × String) (bytes : List UInt8) : Prop :=
  Padded [1, 2] depth (textFields 1 entry.1 ++ textFields 2 entry.2) bytes

section
variable {ρ : Type} {merge : Merge ρ} {depth number : Nat} {message : ρ} {bytes : List UInt8}
  {fields : List (List UInt8)} {text key value : String} {entries : TextMap}

theorem takesAll_text {set : String → ρ → ρ} (positive : 0 < number) (small : number < 2 ^ 29)
    (handles : Handles merge number (textField set))
    (fits : ∀ field ∈ textFields number text, Fits field) (blank : set "" message = message) :
    TakesAll merge depth (textFields number text) message (set text message) := by
  by_cases empty : text = ""
  · subst empty
    rw [blank]
    exact .nil
  · have one : textFields number text = [writeBytes number (bytesOf text)] := by
      simp [textFields, empty]
    rw [one] at fits ⊢
    exact .cons (takes_text positive small handles (fits _ List.mem_cons_self) message) .nil

theorem takesAll_flag {set : Bool → ρ → ρ} {flag : Bool} (positive : 0 < number)
    (small : number < 2 ^ 29) (handles : Handles merge number (flagField set))
    (blank : set false message = message) :
    TakesAll merge depth (flagFields number flag) message (set flag message) := by
  cases flag with
  | false =>
    rw [blank]
    exact .nil
  | true => exact .cons (takes_flag positive small handles message) .nil

theorem flatten_textFields (number : Nat) (text : String) :
    (textFields number text).flatten = writeText number text := by
  unfold textFields writeText
  split <;> simp

theorem flatten_flagFields (number : Nat) (flag : Bool) :
    (flagFields number flag).flatten = writeFlag number flag := by
  cases flag <;> simp [flagFields, writeFlag]

theorem exists_embeds {α : Type} {spells : α → List UInt8 → Prop} {write : α → List UInt8}
    (each : ∀ x, spells x (write x)) (number : Nat) (xs : List α) :
    ∃ fields, List.Forall₂ (Embeds number spells) xs fields ∧
      fields.flatten = xs.flatMap fun x => writeBytes number (write x) := by
  induction xs with
  | nil => exact ⟨[], .nil, rfl⟩
  | cons x xs ih =>
    obtain ⟨fields, spelled, whole⟩ := ih
    refine ⟨writeBytes number (write x) :: fields, .cons ⟨write x, rfl, each x⟩ spelled, ?_⟩
    rw [List.flatten_cons, List.flatMap_cons, whole]

theorem ignores_mergeEntry (unknown : number ∉ [1, 2]) : Ignores mergeEntry number := by
  intro depth kind bytes entry
  unfold mergeEntry
  split
  · simp at unknown
  · simp at unknown
  · rfl

theorem fits_each {known : List Nat} (padded : Padded known depth fields bytes)
    (fits : Fits bytes) : ∀ field ∈ fields, Fits field := by
  intro field mem
  exact fits.mono (padded.length_le field mem)

theorem reads_entry (spelled : SpellsEntry depth (key, value) bytes) (fits : Fits bytes) :
    Reads mergeEntry depth bytes ("", "") (key, value) := by
  have each := fits_each spelled fits
  have takes_key : Handles mergeEntry 1 (textField fun text entry => (text, entry.2)) :=
    fun _ => rfl
  have takes_value : Handles mergeEntry 2 (textField fun text entry => (entry.1, text)) :=
    fun _ => rfl
  have first : TakesAll mergeEntry depth (textFields 1 key) ("", "") (key, "") := by
    apply takesAll_text (by decide) (by decide) takes_key _ rfl
    intro field mem
    exact each field (List.mem_append_left _ mem)
  have second : TakesAll mergeEntry depth (textFields 2 value) (key, "") (key, value) := by
    apply takesAll_text (by decide) (by decide) takes_value _ rfl
    intro field mem
    exact each field (List.mem_append_right _ mem)
  exact Padded.reads spelled (fun _ => ignores_mergeEntry) (first.append second)

theorem spellsEntry_written (depth : Nat) (entry : String × String) :
    SpellsEntry depth entry (writeText 1 entry.1 ++ writeText 2 entry.2) := by
  have whole := padded_flatten [1, 2] depth (textFields 1 entry.1 ++ textFields 2 entry.2)
  rwa [List.flatten_append, flatten_textFields, flatten_textFields] at whole

theorem insert_fresh (fresh : key ∉ entries.map Prod.fst) :
    TextMap.insert entries key value = entries ++ [(key, value)] := by
  have absent : entries.any (·.1 == key) = false := by
    rw [List.any_eq_false]
    intro entry mem
    simp only [beq_iff_eq]
    intro same
    exact fresh (List.mem_map.mpr ⟨entry, mem, same⟩)
  simp [TextMap.insert, absent]

theorem takesAll_map {get : ρ → TextMap} {set : TextMap → ρ → ρ} (positive : 0 < number)
    (small : number < 2 ^ 29) (handles : Handles merge number (mapField get set))
    (build : TextMap → ρ) (get_build : ∀ entries, get (build entries) = entries)
    (set_build : ∀ old new, set new (build old) = build new)
    (distinct : (entries.map Prod.fst).Nodup) (fits : ∀ field ∈ fields, Fits field)
    (spelled : List.Forall₂ (Embeds number (SpellsEntry (depth - 1))) entries fields) :
    TakesAll merge depth fields (build []) (build entries) := by
  apply takesAll_list spelled []
  intro front entry back field split mem embeds
  obtain ⟨key, value⟩ := entry
  obtain ⟨content, rfl, spells⟩ := embeds
  have fresh : key ∉ front.map Prod.fst := by
    rw [← List.nil_append entries, split, List.map_append, List.nodup_append] at distinct
    intro old
    exact distinct.2.2 key old key (by simp) rfl
  have field_fits := fits _ mem
  have takes : Takes merge depth (writeBytes number content) (build front)
      (set (TextMap.insert (get (build front)) key value) (build front)) :=
    takes_entry positive small handles field_fits (reads_entry spells (fits_content field_fits))
  rwa [get_build, insert_fresh fresh, set_build] at takes

end

end Hotplug.Wire
