import Hotplug.Proofs.Json.Decoded
import Hotplug.Proofs.Json.Grammar
import Hotplug.Proofs.Sorted
/-!
Members by their keys and by the value of each key. Those that a reader has collected one by one
are those of the text with its repeated keys merged.
-/
namespace Hotplug.Json

variable {ms told : Members} {k key : String} {v : Value}

theorem lookup_absent (absent : key ∉ ms.map (·.1)) : ms.lookup key = none := by
  apply List.lookup_eq_none_iff.mpr
  intro m mem
  rw [bne_iff_ne]
  rintro rfl
  exact absent (List.mem_map_of_mem mem)

theorem insert_keys : (ms.insert k v).map (·.1) =
    if k ∈ ms.map (·.1) then ms.map (·.1) else ms.map (·.1) ++ [k] := by
  have held : (ms.any (·.1 == k)) = true ↔ k ∈ ms.map (·.1) := by simp
  unfold Members.insert
  split
  · rename_i present
    rw [if_pos (held.mp present), List.map_map]
    apply List.map_congr_left
    intro m _
    by_cases same : m.1 = k
    · simp [same]
    · simp [same]
  · rename_i absent
    rw [if_neg (fun mem => absent (held.mpr mem)), List.map_append]
    rfl

theorem lookup_replaced (ms : Members) (k key : String) (v : Value) :
    (ms.map fun m => if m.1 == k then (k, v) else m).lookup key =
      if key = k ∧ k ∈ ms.map (·.1) then some v else ms.lookup key := by
  induction ms with
  | nil => simp
  | cons m ms ih =>
    obtain ⟨l, w⟩ := m
    rw [List.map_cons, List.lookup_cons, List.lookup_cons, ih]
    by_cases replaced : l = k
    · subst replaced
      by_cases asked : key = l
      · simp [asked]
      · have apart : (key == l) = false := by simpa using asked
        simp [asked, apart]
    · by_cases asked : key = l
      · subst asked
        simp [replaced]
      · have apart : (key == l) = false := by simpa using asked
        simp only [beq_iff_eq, replaced, if_false, apart, List.map_cons, List.mem_cons,
          Ne.symm replaced, false_or]

theorem insert_lookup : (ms.insert k v).lookup key =
    if key = k then some v else ms.lookup key := by
  have held : (ms.any (·.1 == k)) = true ↔ k ∈ ms.map (·.1) := by simp
  unfold Members.insert
  split
  · rename_i present
    rw [lookup_replaced]
    simp only [held.mp present, and_true]
  · rename_i absent
    by_cases asked : key = k
    · subst asked
      rw [List.lookup_append, lookup_absent fun mem => absent (held.mpr mem)]
      simp
    · have apart : (key == k) = false := by simpa using asked
      rw [List.lookup_append, if_neg asked]
      simp [List.lookup_cons, apart]

/-- Members that repeat no key are known by the order of their keys and by the values. -/
theorem eq_of_lookup {as bs : Members} (distinct : Distinct as)
    (keys : as.map (·.1) = bs.map (·.1)) (values : ∀ key, as.lookup key = bs.lookup key) :
    as = bs := by
  induction as generalizing bs with
  | nil => exact (List.map_eq_nil_iff.mp keys.symm).symm
  | cons a as ih =>
    obtain ⟨b, bs, rfl, head, tail⟩ := List.map_eq_cons_iff.mp keys.symm
    obtain ⟨k, v⟩ := a
    obtain ⟨l, w⟩ := b
    obtain rfl : l = k := head
    obtain ⟨absent, distinct⟩ := List.nodup_cons.mp distinct
    have first := values l
    rw [List.lookup_cons_self, List.lookup_cons_self] at first
    have later (key : String) : as.lookup key = bs.lookup key := by
      by_cases asked : key = l
      · subst asked
        rw [lookup_absent absent, lookup_absent (tail ▸ absent)]
      · have apart : (key == l) = false := by simpa using asked
        simpa [List.lookup_cons, apart] using values key
    rw [Option.some.inj first, ih distinct tail.symm later]

theorem mem_keysOf : k ∈ keysOf told ↔ k ∈ told.map (·.1) := List.mem_eraseDups

theorem last_isSome : (last? told k).isSome ↔ k ∈ keysOf told := by
  rw [mem_keysOf, last?, List.lookup_isSome_iff, List.mem_map]
  simp only [List.mem_reverse, beq_iff_eq]
  constructor
  · rintro ⟨m, mem, rfl⟩
    exact ⟨m, mem, rfl⟩
  · rintro ⟨m, mem, rfl⟩
    exact ⟨m, mem, rfl⟩

theorem table_keys {keys : List String} {f : String → Option Value}
    (all : ∀ k ∈ keys, (f k).isSome) :
    (keys.filterMap fun k => (f k).map (k, ·)).map (·.1) = keys := by
  induction keys with
  | nil => rfl
  | cons k keys ih =>
    obtain ⟨first, later⟩ := List.forall_mem_cons.mp all
    obtain ⟨v, value⟩ := Option.isSome_iff_exists.mp first
    simp [value, ih later]

theorem table_lookup {keys : List String} {f : String → Option Value}
    (all : ∀ k ∈ keys, (f k).isSome) (key : String) :
    (keys.filterMap fun k => (f k).map (k, ·)).lookup key = if key ∈ keys then f key else none := by
  induction keys with
  | nil => rfl
  | cons k keys ih =>
    obtain ⟨first, later⟩ := List.forall_mem_cons.mp all
    obtain ⟨v, value⟩ := Option.isSome_iff_exists.mp first
    by_cases asked : key = k
    · subst asked
      simp [value]
    · have apart : (key == k) = false := by simpa using asked
      simp [value, List.lookup_cons, apart, ih later, asked]

theorem merged_keys (told : Members) : (merged told).map (·.1) = keysOf told :=
  table_keys fun _ mem => last_isSome.mpr mem

theorem merged_lookup (told : Members) (key : String) :
    (merged told).lookup key = last? told key := by
  have found : (merged told).lookup key = _ := table_lookup (fun _ mem => last_isSome.mpr mem) key
  rw [found]
  split
  · rfl
  · rename_i absent
    cases value : last? told key with
    | none => rfl
    | some v => exact absurd (last_isSome.mp (by rw [value]; rfl)) absent

theorem mem_of_last {v : Value} (last : last? told k = some v) : (k, v) ∈ told := by
  obtain ⟨front, back, eq, -⟩ := List.lookup_eq_some_iff.mp last
  have mem : (k, v) ∈ told.reverse := by simp [eq]
  exact List.mem_reverse.mp mem

theorem mem_of_merged {m : String × Value} (mem : m ∈ merged told) : m ∈ told := by
  obtain ⟨k, -, eq⟩ := List.mem_filterMap.mp mem
  obtain ⟨v, last, rfl⟩ := Option.map_eq_some_iff.mp eq
  exact mem_of_last last

theorem merged_distinct (told : Members) : Distinct (merged told) := by
  unfold Distinct
  rw [merged_keys]
  exact nodup_eraseDups _

theorem keysOf_concat (told : Members) (k : String) (v : Value) : keysOf (told ++ [(k, v)]) =
    if k ∈ keysOf told then keysOf told else keysOf told ++ [k] := by
  simp only [keysOf, List.map_append, List.map_cons, List.map_nil, List.eraseDups_append,
    List.removeAll, List.mem_eraseDups]
  split
  · rename_i old
    simp [old]
  · rename_i new
    simp [new, List.eraseDups_cons]

theorem last_concat (told : Members) (k : String) (v : Value) (key : String) :
    last? (told ++ [(k, v)]) key = if key = k then some v else last? told key := by
  by_cases asked : key = k
  · simp [last?, asked]
  · have apart : (key == k) = false := by simpa using asked
    simp [last?, List.lookup_cons, apart, asked]

theorem merged_concat (told : Members) (k : String) (v : Value) :
    merged (told ++ [(k, v)]) = (merged told).insert k v := by
  apply eq_of_lookup (merged_distinct _)
  · rw [insert_keys, merged_keys, merged_keys, keysOf_concat]
  · intro key
    rw [insert_lookup, merged_lookup, merged_lookup, last_concat]

theorem placed_reverse (done : Members) (k : String) (v : Value) :
    (placed done k v).reverse = Members.insert done.reverse k v := by
  unfold placed Members.insert
  rw [List.any_reverse]
  split
  · rw [List.map_reverse]
  · rw [List.reverse_cons]

theorem insert_eq_placed (ms : Members) (k : String) (v : Value) :
    ms.insert k v = (placed ms.reverse k v).reverse := by
  rw [placed_reverse, List.reverse_reverse]

theorem insert_distinct (distinct : Distinct ms) (k : String) (v : Value) :
    Distinct (ms.insert k v) := by
  have reversed {ms : Members} (distinct : Distinct ms) : Distinct ms.reverse := by
    simpa [Distinct, List.map_reverse] using distinct
  rw [insert_eq_placed]
  exact reversed (placed_distinct (reversed distinct) k v)

theorem mem_insert {m : String × Value} (mem : m ∈ ms.insert k v) : m = (k, v) ∨ m ∈ ms := by
  rw [insert_eq_placed, List.mem_reverse] at mem
  simpa using mem_placed mem

theorem insert_insert (distinct : Distinct ms) (k : String) (v : Value) :
    (ms.insert k v).insert k v = ms.insert k v := by
  apply eq_of_lookup (insert_distinct (insert_distinct distinct k v) k v)
  · rw [insert_keys, if_pos]
    rw [insert_keys]
    split
    · assumption
    · simp
  · intro key
    rw [insert_lookup, insert_lookup]
    split <;> rfl

def collected (done told : Members) : Members :=
  told.foldl (fun done m => placed done m.1 m.2) done

theorem collected_merged (told : Members) : (collected [] told).reverse = merged told := by
  induction told using List.reverseRecOn with
  | nil => rfl
  | append_singleton told m ih =>
    obtain ⟨k, v⟩ := m
    unfold collected at ih ⊢
    rw [List.foldl_append, List.foldl_cons, List.foldl_nil, placed_reverse, ih, merged_concat]

end Hotplug.Json
