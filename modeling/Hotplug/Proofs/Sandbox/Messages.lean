import Hotplug.Proofs.Wire.Layout
import Hotplug.Sandbox.Message
/-!
Every message to and from the container runtime comes back from its bytes, also where a runtime
has put fields in that are not known here, however they are nested in one another. Only how deep
they may nest is bounded, as the reader bounds it. What becomes of a known field that comes twice
is not covered.
-/
namespace Hotplug.Sandbox

open Wire Text

def Filter.layout : Layout Filter := labelled 3 Filter.id Filter.labels

def Listed.layout : Layout Listed := labelled 5 Listed.id Listed.labels

def ListRequest.layout : Layout ListRequest := nested 1 Filter.layout fun r => r.filter.toList

def ListResponse.layout : Layout ListResponse := nested 1 Listed.layout ListResponse.items

def StatusRequest.layout : Layout StatusRequest where
  known := [1, 2]
  Fields _ r fields := fields = textFields 1 r.id ++ flagFields 2 r.verbose
  Distinct _ := True
  Same r other := r = other

def StatusResponse.layout : Layout StatusResponse := mapped 2 StatusResponse.info

variable {number : Nat}

theorem Filter.ignores (unknown : number ∉ [1, 3]) : Ignores Filter.merge number := by
  intro depth kind bytes f
  unfold Filter.merge
  split
  · simp at unknown
  · simp at unknown
  · rfl

theorem Listed.ignores (unknown : number ∉ [1, 5]) : Ignores Listed.merge number := by
  intro depth kind bytes s
  unfold Listed.merge
  split
  · simp at unknown
  · simp at unknown
  · rfl

theorem ListRequest.ignores (unknown : number ∉ [1]) : Ignores ListRequest.merge number := by
  intro depth kind bytes r
  unfold ListRequest.merge
  split
  · simp at unknown
  · rfl

theorem ListResponse.ignores (unknown : number ∉ [1]) : Ignores ListResponse.merge number := by
  intro depth kind bytes r
  unfold ListResponse.merge
  split
  · simp at unknown
  · rfl

theorem StatusRequest.ignores (unknown : number ∉ [1, 2]) :
    Ignores StatusRequest.merge number := by
  intro depth kind bytes r
  unfold StatusRequest.merge
  split
  · simp at unknown
  · simp at unknown
  · rfl

theorem StatusResponse.ignores (unknown : number ∉ [2]) : Ignores StatusResponse.merge number := by
  intro depth kind bytes r
  unfold StatusResponse.merge
  split
  · simp at unknown
  · rfl

theorem Filter.follows : Filter.layout.Follows Filter.merge {} Filter.write := by
  have takes_id : Handles Filter.merge 1 (textField fun v f => { f with id := v }) :=
    fun _ => rfl
  have takes_labels : Handles Filter.merge 3
      (mapField Filter.labels fun v f => { f with labels := v }) :=
    fun _ => rfl
  apply follows_labelled Filter.mk (by decide) (by decide) (fun _ => Filter.ignores)
    takes_id takes_labels <;> intros <;> rfl

theorem Listed.follows : Listed.layout.Follows Listed.merge {} Listed.write := by
  have takes_id : Handles Listed.merge 1 (textField fun v s => { s with id := v }) :=
    fun _ => rfl
  have takes_labels : Handles Listed.merge 5
      (mapField Listed.labels fun v s => { s with labels := v }) :=
    fun _ => rfl
  apply follows_labelled Listed.mk (by decide) (by decide) (fun _ => Listed.ignores)
    takes_id takes_labels <;> intros <;> rfl

theorem StatusResponse.follows :
    StatusResponse.layout.Follows StatusResponse.merge {} StatusResponse.write := by
  have takes_info : Handles StatusResponse.merge 2
      (mapField StatusResponse.info fun v r => { r with info := v }) :=
    fun _ => rfl
  apply follows_mapped StatusResponse.mk (by decide) (by decide) (fun _ => StatusResponse.ignores)
    takes_info <;> intros <;> rfl

theorem StatusRequest.follows :
    StatusRequest.layout.Follows StatusRequest.merge {} StatusRequest.write where
  foreign _ := StatusRequest.ignores
  takes := by
    intro depth r fields _ spelled fits
    subst spelled
    have takes_id : Handles StatusRequest.merge 1 (textField fun v r => { r with id := v }) :=
      fun _ => rfl
    have takes_verbose : Handles StatusRequest.merge 2
        (flagField fun v r => { r with verbose := v }) :=
      fun _ => rfl
    have first : TakesAll StatusRequest.merge depth (textFields 1 r.id) {} { id := r.id } := by
      apply takesAll_text (by decide) (by decide) takes_id _ rfl
      intro field mem
      exact fits field (List.mem_append_left _ mem)
    have second : TakesAll StatusRequest.merge depth (flagFields 2 r.verbose) { id := r.id } r :=
      takesAll_flag (by decide) (by decide) takes_verbose rfl
    exact first.append second
  writes _ r := by
    refine ⟨_, rfl, ?_⟩
    rw [List.flatten_append, flatten_textFields, flatten_flagFields]
    rfl
  distinct _ _ := trivial

theorem ListRequest.follows :
    ListRequest.layout.Follows ListRequest.merge {} ListRequest.write := by
  have takes_filter : Handles ListRequest.merge 1 (messageField Filter.merge
      (fun r => r.filter.getD {}) fun v r => { r with filter := some v }) :=
    fun _ => rfl
  -- A filter is read onto the one before it, but there is none before the only one.
  have alone (r : ListRequest) (front : List Filter) (f : Filter) (back : List Filter)
      (split : r.filter.toList = front ++ f :: back) : front = [] := by
    have length := congrArg List.length split
    cases filter : r.filter <;> simp [filter] at length
    exact List.eq_nil_of_length_eq_zero (by omega)
  have follows := follows_nested (fun fs => { filter := fs.head? }) Filter.follows (by decide)
    (by decide) (fun _ => ListRequest.ignores) takes_filter (by
      intro r front f back split
      rw [alone r front f back split]
      exact ⟨rfl, rfl⟩) (by
      intro r
      cases r with
      | mk filter => cases filter <;> rfl)
  have same : ListRequest.write = fun r => r.filter.toList.flatMap fun f => writeBytes 1 f.write := by
    funext r
    cases r with
    | mk filter => cases filter <;> simp [ListRequest.write]
  rw [same]
  exact follows

theorem ListResponse.follows :
    ListResponse.layout.Follows ListResponse.merge {} ListResponse.write := by
  have takes_item : Handles ListResponse.merge 1 (messageField Listed.merge
      (fun _ => {}) fun v r => { r with items := r.items ++ [v] }) :=
    fun _ => rfl
  apply follows_nested ListResponse.mk Listed.follows (by decide) (by decide)
    (fun _ => ListResponse.ignores) takes_item
  · intro r front s back _
    exact ⟨rfl, rfl⟩
  · intro r
    rfl

/-- A message comes back from its bytes, whatever order its maps were written in and whatever
fields it does not know are among its own, those of an entry and of a nested message included. -/
theorem messages_come_back :
    Filter.layout.Faithful (decode Filter.merge {}) Filter.write ∧
    ListRequest.layout.Faithful ListRequest.read ListRequest.write ∧
    Listed.layout.Faithful (decode Listed.merge {}) Listed.write ∧
    ListResponse.layout.Faithful ListResponse.read ListResponse.write ∧
    StatusRequest.layout.Faithful StatusRequest.read StatusRequest.write ∧
    StatusResponse.layout.Faithful StatusResponse.read StatusResponse.write :=
  ⟨Filter.follows.faithful, ListRequest.follows.faithful, Listed.follows.faithful,
    ListResponse.follows.faithful, StatusRequest.follows.faithful, StatusResponse.follows.faithful⟩

def sampleEntry : List UInt8 :=
  [0x0a, 4, 0x69, 0x6e, 0x66, 0x6f, 0x38, 0xac, 2, 0x12, 2, 0x7b, 0x7d]

def sampleBytes : List UInt8 :=
  [0x0a, 2, 0x08, 1] ++ writeBytes 2 sampleEntry ++ [0x12, 3, 0x12, 1, 0x78, 0x1b, 0x23, 0x24, 0x1c]

def sampleWritten : StatusResponse := { info := [("info", "{}"), ("", "x")] }

def sampleAnswer : StatusResponse := { info := [("", "x"), ("info", "{}")] }

theorem sample_entry_spelled : SpellsEntry 99 ("info", "{}") sampleEntry := by
  have number : Fields (· ∉ [1, 2]) (98 + 1) ([0x38] ++ [0xac, 2]) := by
    have key : Key 7 .varint [0x38] := key_byte .varint (by decide) (by decide)
    have last : Septets 2 [2] := septets_byte (by decide)
    have septets : Septets 300 [0xac, 2] := .more (b := 0xac) (by decide) last
    exact fields_one (by decide) key (.varint ⟨septets, by decide, by decide⟩)
  have value : Padded [1, 2] 99 [writeBytes 2 (bytesOf "{}")]
      (([0x38] ++ [0xac, 2]) ++ (writeBytes 2 (bytesOf "{}") ++ [])) :=
    .field number (.ends .nothing)
  have bytes : sampleEntry = writeBytes 1 (bytesOf "info") ++
      (([0x38] ++ [0xac, 2]) ++ (writeBytes 2 (bytesOf "{}") ++ [])) := by decide +kernel
  rw [bytes]
  exact .field .nothing value

theorem sample_spelled : StatusResponse.layout.Spells greatestDepth sampleWritten sampleBytes := by
  have status : Fields (· ∉ [2]) (99 + 1) ([0x0a] ++ ([2] ++ [0x08, 1])) := by
    have key : Key 1 .bytes [0x0a] := key_byte .bytes (by decide) (by decide)
    have length : Varint 2 [2] := ⟨septets_byte (by decide), by decide, by decide⟩
    exact fields_one (by decide) key (.bytes length)
  have groups : Fields (· ∉ [2]) (99 + 1) ([0x1b] ++ (([0x23] ++ ([] ++ [0x24])) ++ [0x1c])) := by
    have opens : Key 3 .groupStart [0x1b] := key_byte .groupStart (by decide) (by decide)
    have opens_inner : Key 4 .groupStart [0x23] := key_byte .groupStart (by decide) (by decide)
    have closes_inner : Key 4 .groupEnd [0x24] := key_byte .groupEnd (by decide) (by decide)
    have closes : Key 3 .groupEnd [0x1c] := key_byte .groupEnd (by decide) (by decide)
    have inner : Fields (fun _ => True) (98 + 1) ([0x23] ++ ([] ++ [0x24])) :=
      fields_group trivial opens_inner .nothing closes_inner
    exact fields_group (by decide) opens inner closes
  have unnamed : SpellsEntry 99 ("", "x") (writeText 1 "" ++ writeText 2 "x") :=
    spellsEntry_written 99 ("", "x")
  have padded : Padded [2] greatestDepth
      [writeBytes 2 sampleEntry, writeBytes 2 (writeText 1 "" ++ writeText 2 "x")]
      (([0x0a] ++ ([2] ++ [0x08, 1])) ++ (writeBytes 2 sampleEntry ++ ([] ++
        (writeBytes 2 (writeText 1 "" ++ writeText 2 "x") ++
          ([0x1b] ++ (([0x23] ++ ([] ++ [0x24])) ++ [0x1c])))))) :=
    .field status (.field .nothing (.ends groups))
  have bytes : sampleBytes = ([0x0a] ++ ([2] ++ [0x08, 1])) ++ (writeBytes 2 sampleEntry ++ ([] ++
      (writeBytes 2 (writeText 1 "" ++ writeText 2 "x") ++
        ([0x1b] ++ (([0x23] ++ ([] ++ [0x24])) ++ [0x1c]))))) := by decide +kernel
  rw [← bytes] at padded
  exact ⟨_, .cons ⟨_, rfl, sample_entry_spelled⟩ (.cons ⟨_, rfl, unnamed⟩ .nil), padded⟩

theorem sample_message_comes_back :
    ∃ found, StatusResponse.read sampleBytes = some found ∧
      StatusResponse.layout.Same found sampleAnswer := by
  have faithful := messages_come_back.2.2.2.2.2
  have distinct : StatusResponse.layout.Distinct sampleAnswer := by
    change (sampleAnswer.info.map Prod.fst).Nodup
    decide
  have same : StatusResponse.layout.Same sampleWritten sampleAnswer := List.Perm.swap _ _ _
  have fits : Fits sampleBytes := by
    change sampleBytes.length < 2 ^ 64
    decide +kernel
  exact faithful.padded _ _ _ distinct same sample_spelled fits

def groups : Nat → List UInt8
  | 0 => []
  | depth + 1 => [0x1b] ++ (groups depth ++ [0x1c])

theorem fields_groups {allowed : Nat → Prop} (third : allowed 3) (depth : Nat) :
    Fields allowed depth (groups depth) := by
  have opens : Key 3 .groupStart [0x1b] := key_byte .groupStart (by decide) (by decide)
  have closes : Key 3 .groupEnd [0x1c] := key_byte .groupEnd (by decide) (by decide)
  induction depth generalizing allowed with
  | zero => exact .nothing
  | succ depth ih => exact fields_group third opens (ih trivial) closes

/-- One level more than the reader takes, in fields that it would pass over otherwise. -/
theorem deeper_groups_are_refused :
    StatusResponse.layout.Spells (greatestDepth + 1) {} (groups (greatestDepth + 1)) ∧
    StatusResponse.read (StatusResponse.write {}) = some {} ∧
    StatusResponse.read (groups (greatestDepth + 1)) = none := by
  have pad : Fields (· ∉ [2]) (greatestDepth + 1) (groups (greatestDepth + 1)) :=
    fields_groups (by decide) _
  have spelled : StatusResponse.layout.Spells (greatestDepth + 1) {} (groups (greatestDepth + 1)) :=
    ⟨[], .nil, .ends pad⟩
  exact ⟨spelled, by decide +kernel, by decide +kernel⟩

end Hotplug.Sandbox
