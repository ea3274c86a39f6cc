import Hotplug.Attachment.HardwareAddress
import Hotplug.Proofs.Text.Pieces
import Mathlib.Data.List.Forall2
/-!
The octets of a hardware address and their spellings. A text is accepted exactly if it writes 6, 8
or 20 of them in one of three forms, in digits of either case. What the octets stand for is not
covered.
-/
namespace Hotplug.HardwareAddress

open Text

def nibbles (octets : List UInt8) : List Nat :=
  octets.flatMap fun o => [o.toNat / 16, o.toNat % 16]

/-- The characters are the octets' digits, in either case. -/
def Digits (octets : List UInt8) (s : List Char) : Prop :=
  s.map hexValue? = (nibbles octets).map some

/-- Groups of so many octets, with the separator between them. -/
def Grouped (separator : Char) (size : Nat) (octets : List UInt8) (s : List Char) : Prop :=
  ∃ groups pieces, octets = groups.flatten ∧ (∀ g ∈ groups, g.length = size) ∧
    List.Forall₂ Digits groups pieces ∧ s = [separator].intercalate pieces

def Spells (octets : List UInt8) (s : List Char) : Prop :=
  Grouped ':' 1 octets s ∨ Grouped '-' 1 octets s ∨ Grouped '.' 2 octets s

/-- The text of a hardware address of 6, 8 or 20 octets. -/
def IsAddress (s : List Char) : Prop :=
  ∃ octets, octets.length ∈ [6, 8, 20] ∧ Spells octets s

variable {c d : Char} {s : List Char}

theorem hexValue_lt {n : Nat} (digit : hexValue? c = some n) : n < 16 := by
  unfold hexValue? at digit
  dsimp only at digit
  split at digit
  · obtain rfl := Option.some.inj digit
    omega
  · split at digit
    · obtain rfl := Option.some.inj digit
      omega
    · split at digit
      · obtain rfl := Option.some.inj digit
        omega
      · cases digit

theorem digits_append {left right : List UInt8} {s t : List Char} (front : Digits left s)
    (back : Digits right t) : Digits (left ++ right) (s ++ t) := by
  unfold Digits nibbles at *
  rw [List.map_append, front, back, List.flatMap_append, List.map_append]

theorem exists_octet (high : isHexDigit c = true) (low : isHexDigit d = true) :
    ∃ o, Digits [o] [c, d] := by
  obtain ⟨m, first⟩ := Option.isSome_iff_exists.mp high
  obtain ⟨n, second⟩ := Option.isSome_iff_exists.mp low
  have m_lt := hexValue_lt first
  have n_lt := hexValue_lt second
  have value : (UInt8.ofNat (16 * m + n)).toNat = 16 * m + n := by
    apply UInt8.toNat_ofNat_of_lt'
    show 16 * m + n < 256
    omega
  have upper : (16 * m + n) / 16 = m := by omega
  have lower : (16 * m + n) % 16 = n := by omega
  refine ⟨UInt8.ofNat (16 * m + n), ?_⟩
  simp only [Digits, nibbles, List.flatMap_singleton, value, upper, lower, List.map_cons, first,
    second, List.map_nil]

theorem toNat_lt_of_hex (hex : isHexDigit c = true) : c.toNat < 128 := by
  obtain ⟨n, digit⟩ := Option.isSome_iff_exists.mp hex
  unfold hexValue? at digit
  dsimp only at digit
  by_contra large
  rw [if_neg (by omega), if_neg (by omega), if_neg (by omega)] at digit
  cases digit

/-- Digits are measured alike in bytes and in characters. -/
theorem byteCount_of_hex (hex : s.all isHexDigit = true) : byteCount s = s.length := by
  induction s with
  | nil => rfl
  | cons c s ih =>
    obtain ⟨first, rest⟩ := Bool.and_eq_true_iff.mp hex
    have small : c.val.toNat < 128 := toNat_lt_of_hex first
    have single : c.utf8Size = 1 := Char.utf8Size_eq_one_iff.mpr (UInt32.le_iff_toNat_le.mpr (by
      show c.val.toNat ≤ 127
      omega))
    rw [byteCount, ih rest, single, List.length_cons, Nat.add_comm]

theorem exists_octets (size : Nat) (s : List Char) (length : s.length = 2 * size)
    (hex : s.all isHexDigit = true) : ∃ octets, octets.length = size ∧ Digits octets s := by
  induction size generalizing s with
  | zero =>
    obtain rfl := List.eq_nil_of_length_eq_zero length
    exact ⟨[], rfl, rfl⟩
  | succ size ih =>
    match s with
    | [] => simp at length
    | [c] =>
      simp only [List.length_singleton] at length
      omega
    | c :: d :: s =>
      simp only [List.all_cons, Bool.and_eq_true] at hex
      obtain ⟨high, low, rest⟩ := hex
      simp only [List.length_cons] at length
      obtain ⟨o, written⟩ := exists_octet high low
      obtain ⟨octets, count, more⟩ := ih s (by omega) rest
      refine ⟨o :: octets, ?_, ?_⟩
      · rw [List.length_cons, count]
      · exact digits_append written more

theorem exists_groups (size : Nat) (pieces : List (List Char))
    (all : pieces.all (isGroup (2 * size)) = true) :
    ∃ groups, groups.length = pieces.length ∧ (∀ g ∈ groups, g.length = size) ∧
      List.Forall₂ Digits groups pieces := by
  induction pieces with
  | nil => exact ⟨[], rfl, by simp, .nil⟩
  | cons piece pieces ih =>
    simp only [List.all_cons, Bool.and_eq_true] at all
    obtain ⟨first, rest⟩ := all
    obtain ⟨groups, count, sizes, written⟩ := ih rest
    simp only [isGroup, Bool.and_eq_true, beq_iff_eq] at first
    obtain ⟨bytes, hex⟩ := first
    have length := (byteCount_of_hex hex).symm.trans bytes
    obtain ⟨g, own, digits⟩ := exists_octets size piece length hex
    refine ⟨g :: groups, ?_, List.forall_mem_cons.mpr ⟨own, sizes⟩, .cons digits written⟩
    rw [List.length_cons, List.length_cons, count]

theorem flatten_length {groups : List (List UInt8)} {size : Nat}
    (sizes : ∀ g ∈ groups, g.length = size) : groups.flatten.length = groups.length * size := by
  induction groups with
  | nil => simp
  | cons g groups ih =>
    obtain ⟨own, rest⟩ := List.forall_mem_cons.mp sizes
    rw [List.flatten_cons, List.length_append, own, ih rest, List.length_cons, Nat.succ_mul]
    omega

theorem exists_grouped {separator : Char} (size : Nat)
    (count : isOctetCount ((splitAt separator s).length * (2 * size) / 2) = true)
    (all : (splitAt separator s).all (isGroup (2 * size)) = true) :
    ∃ octets, octets.length ∈ [6, 8, 20] ∧ Grouped separator size octets s := by
  obtain ⟨groups, same, sizes, written⟩ := exists_groups size _ all
  have length : groups.flatten.length = (splitAt separator s).length * (2 * size) / 2 := by
    rw [flatten_length sizes, same, ← Nat.mul_assoc, Nat.mul_right_comm,
      Nat.mul_div_cancel _ (by decide)]
  refine ⟨groups.flatten, ?_, groups, splitAt separator s, rfl, sizes, written, ?_⟩
  · rw [length]
    simpa [isOctetCount, or_assoc] using count
  · exact (intercalate_splitAt separator s).symm

theorem grouping_cases {separator : Char} {digits : Nat}
    (grouping : grouping? s = some (separator, digits)) :
    (separator = ':' ∧ digits = 2) ∨ (separator = '-' ∧ digits = 2) ∨
      (separator = '.' ∧ digits = 4) := by
  unfold grouping? at grouping
  split at grouping
  · obtain ⟨rfl, rfl⟩ := Prod.mk.inj (Option.some.inj grouping)
    exact .inl ⟨rfl, rfl⟩
  · split at grouping
    · obtain ⟨rfl, rfl⟩ := Prod.mk.inj (Option.some.inj grouping)
      exact .inr (.inl ⟨rfl, rfl⟩)
    · split at grouping
      · obtain ⟨rfl, rfl⟩ := Prod.mk.inj (Option.some.inj grouping)
        exact .inr (.inr ⟨rfl, rfl⟩)
      · cases grouping

theorem isAddress_of_accepts (accepted : accepts s = true) : IsAddress s := by
  unfold accepts at accepted
  split at accepted
  · cases accepted
  · rename_i separator digits grouping
    obtain ⟨count, all⟩ := Bool.and_eq_true_iff.mp accepted
    rcases grouping_cases grouping with ⟨rfl, rfl⟩ | ⟨rfl, rfl⟩ | ⟨rfl, rfl⟩
    · obtain ⟨octets, length, grouped⟩ := exists_grouped 1 count all
      exact ⟨octets, length, .inl grouped⟩
    · obtain ⟨octets, length, grouped⟩ := exists_grouped 1 count all
      exact ⟨octets, length, .inr (.inl grouped)⟩
    · obtain ⟨octets, length, grouped⟩ := exists_grouped 2 count all
      exact ⟨octets, length, .inr (.inr grouped)⟩

/-- How octets are written: how many make a group, and what stands between two groups. -/
structure Form where
  separator : Char
  size : Nat
  deriving DecidableEq, Repr

/-- Single octets between colons or between hyphens, pairs of them between dots. -/
def forms : List Form := [⟨':', 1⟩, ⟨'-', 1⟩, ⟨'.', 2⟩]

def separators : List Char := forms.map Form.separator

def cutInto (size : Nat) : Nat → List UInt8 → List (List UInt8)
  | 0, _ => []
  | count + 1, octets => octets.take size :: cutInto size count (octets.drop size)

def lowerDigits (octets : List UInt8) : List Char := (nibbles octets).map Nat.digitChar

def Form.groups (form : Form) (octets : List UInt8) : List (List UInt8) :=
  cutInto form.size (octets.length / form.size) octets

def Form.write (form : Form) (octets : List UInt8) : List Char :=
  [form.separator].intercalate ((form.groups octets).map lowerDigits)

example : Form.write ⟨'.', 2⟩ [2, 0xAB, 4, 5, 6, 0xF0] = "02ab.0405.06f0".toList := by decide

theorem length_cutInto (size count : Nat) (octets : List UInt8) :
    (cutInto size count octets).length = count := by
  induction count generalizing octets with
  | zero => rfl
  | succ count ih => rw [cutInto, List.length_cons, ih]

theorem size_of_mem_cutInto {size count : Nat} {octets : List UInt8}
    (enough : count * size ≤ octets.length) : ∀ g ∈ cutInto size count octets, g.length = size := by
  induction count generalizing octets with
  | zero => simp [cutInto]
  | succ count ih =>
    rw [Nat.succ_mul] at enough
    refine List.forall_mem_cons.mpr ⟨?_, ?_⟩
    · rw [List.length_take]
      omega
    · apply ih
      rw [List.length_drop]
      omega

theorem cutInto_flatten {size : Nat} {groups : List (List UInt8)}
    (sizes : ∀ g ∈ groups, g.length = size) :
    cutInto size groups.length groups.flatten = groups := by
  induction groups with
  | nil => rfl
  | cons g groups ih =>
    obtain ⟨own, rest⟩ := List.forall_mem_cons.mp sizes
    rw [List.flatten_cons, List.length_cons, cutInto, List.take_left' own, List.drop_left' own,
      ih rest]

theorem toLower_of_large (large : 128 ≤ c.toNat) : c.toLower = c := by
  unfold Char.toLower
  apply dif_neg
  intro upper
  have most : c.toNat ≤ 90 := UInt32.le_iff_toNat_le.mp upper.2
  omega

theorem of_ascii {p : Char → Prop} (all : ∀ k < 128, p (Char.ofNat k)) (small : c.toNat < 128) :
    p c := by
  have own := all c.toNat small
  rwa [Char.ofNat_toNat] at own

theorem separator_cases {separator : Char} (mem : separator ∈ separators) :
    separator = ':' ∨ separator = '-' ∨ separator = '.' := by
  simpa [separators, forms] using mem

theorem not_hex_of_separator {separator : Char} (mem : separator ∈ separators) :
    isHexDigit separator = false := by
  rcases separator_cases mem with rfl | rfl | rfl <;> rfl

theorem lower_separator {separator : Char} (mem : separator ∈ separators) (c : Char) :
    c.toLower = separator ↔ c = separator := by
  by_cases small : c.toNat < 128
  · apply of_ascii (p := fun c => c.toLower = separator ↔ c = separator) _ small
    rcases separator_cases mem with rfl | rfl | rfl <;> decide +kernel
  · rw [toLower_of_large (Nat.le_of_not_lt small)]

/-- A character is a digit of some value if its lower case is. -/
theorem hexValue_iff_lower {n : Nat} (digit : n < 16) :
    hexValue? c = some n ↔ c.toLower = n.digitChar := by
  by_cases small : c.toNat < 128
  · have all : ∀ n < 16, ∀ k < 128,
        hexValue? (Char.ofNat k) = some n ↔ (Char.ofNat k).toLower = n.digitChar := by
      decide +kernel
    exact of_ascii (p := fun c => hexValue? c = some n ↔ c.toLower = n.digitChar) (all n digit) small
  · have digits : ∀ n < 16, n.digitChar.toNat < 128 := by decide
    constructor
    · intro value
      exact absurd (toNat_lt_of_hex (Option.isSome_iff_exists.mpr ⟨n, value⟩)) small
    · intro same
      rw [toLower_of_large (Nat.le_of_not_lt small)] at same
      exact absurd (same ▸ digits n digit) small

theorem length_nibbles (octets : List UInt8) : (nibbles octets).length = 2 * octets.length := by
  simp [nibbles, List.length_flatMap, Nat.mul_comm]

theorem nibbles_lt (octets : List UInt8) : ∀ n ∈ nibbles octets, n < 16 := by
  intro n mem
  obtain ⟨o, -, half⟩ := List.mem_flatMap.mp mem
  have octet := o.toNat_lt
  simp only [List.mem_cons, List.not_mem_nil, or_false] at half
  omega

theorem digits_iff_lower {octets : List UInt8} :
    Digits octets s ↔ s.map Char.toLower = lowerDigits octets := by
  have small := nibbles_lt octets
  unfold Digits lowerDigits
  -- Two digits make an octet, so the induction is on any digit values and not on the octets.
  generalize nibbles octets = values at small
  induction s generalizing values with
  | nil => cases values <;> simp
  | cons c s ih =>
    cases values with
    | nil => simp
    | cons n values =>
      obtain ⟨first, rest⟩ := List.forall_mem_cons.mp small
      rw [List.map_cons, List.map_cons, List.map_cons, List.map_cons, List.cons.injEq,
        List.cons.injEq, hexValue_iff_lower first]
      exact and_congr_right fun _ => ih values rest

theorem lowered_pieces {groups : List (List UInt8)} {pieces : List (List Char)}
    (digits : List.Forall₂ Digits groups pieces) :
    pieces.map (List.map Char.toLower) = groups.map lowerDigits := by
  induction digits with
  | nil => rfl
  | cons first _ ih => rw [List.map_cons, List.map_cons, digits_iff_lower.mp first, ih]

variable {form : Form} {octets : List UInt8}

theorem written_of_grouped (known : form ∈ forms)
    (grouped : Grouped form.separator form.size octets s) :
    s.map Char.toLower = form.write octets := by
  have positive : ∀ form ∈ forms, 0 < form.size := by decide
  obtain ⟨groups, pieces, rfl, sizes, digits, rfl⟩ := grouped
  have same := (lower_separator (List.mem_map_of_mem known) form.separator).mpr rfl
  have count : groups.flatten.length / form.size = groups.length := by
    rw [flatten_length sizes, Nat.mul_div_cancel _ (positive form known)]
  rw [intercalate_map, same, lowered_pieces digits, Form.write, Form.groups, count,
    cutInto_flatten sizes]

theorem isGroup_of_lower (written : s.map Char.toLower = lowerDigits octets) :
    isGroup (2 * octets.length) s = true := by
  have digits := digits_iff_lower.mpr written
  have length : s.length = 2 * octets.length := by
    have same := congrArg List.length digits
    rwa [List.length_map, List.length_map, length_nibbles] at same
  have hex : s.all isHexDigit = true := by
    apply List.all_eq_true.mpr
    intro c mem
    have value : hexValue? c ∈ (nibbles octets).map some := digits ▸ List.mem_map_of_mem mem
    obtain ⟨n, -, eq⟩ := List.mem_map.mp value
    exact Option.isSome_iff_exists.mpr ⟨n, eq.symm⟩
  unfold isGroup
  rw [byteCount_of_hex hex, length, hex, beq_self_eq_true, Bool.and_self]

theorem splitAt_written (known : form ∈ forms) (groups : form.groups octets ≠ [])
    (written : s.map Char.toLower = form.write octets) :
    (splitAt form.separator s).map (List.map Char.toLower) =
      (form.groups octets).map lowerDigits := by
  have separator : form.separator ∈ separators := List.mem_map_of_mem known
  rw [← splitAt_map (lower_separator separator), written, splitAt_eq_splitOn, Form.write]
  apply List.splitOn_intercalate
  · intro piece mem inside
    obtain ⟨g, -, rfl⟩ := List.mem_map.mp mem
    obtain ⟨n, digit, eq⟩ := List.mem_map.mp inside
    have none : ∀ n < 16, n.digitChar ∉ separators := by decide
    exact none n (nibbles_lt g n digit) (eq ▸ separator)
  · simpa using groups

/-- Digits hide no separator, so the first one looked for that is found is the form's own. -/
theorem grouping_of_pieces (known : form ∈ forms) (several : 1 < (splitAt form.separator s).length)
    (hex : ∀ piece ∈ splitAt form.separator s, piece.all isHexDigit = true) :
    grouping? s = some (form.separator, 2 * form.size) := by
  have present : form.separator ∈ s := by
    by_contra absent
    rw [splitAt_clean absent] at several
    exact Nat.lt_irrefl 1 several
  have absent (d : Char) (separator : d ∈ separators) (other : d ≠ form.separator) :
      ¬ s.contains d = true := by
    intro contained
    have mem := List.contains_iff_mem.mp contained
    rw [← intercalate_splitAt form.separator s] at mem
    rcases mem_intercalate mem with same | ⟨piece, among, inside⟩
    · exact other same
    · have digit := List.all_eq_true.mp (hex piece among) d inside
      rw [not_hex_of_separator separator] at digit
      cases digit
  have found := List.contains_iff_mem.mpr present
  have colon := absent ':' (by decide)
  have hyphen := absent '-' (by decide)
  simp only [forms, List.mem_cons, List.not_mem_nil, or_false] at known
  rcases known with rfl | rfl | rfl
  · exact if_pos found
  · exact (if_neg (colon (by decide))).trans (if_pos found)
  · exact (if_neg (colon (by decide))).trans
      ((if_neg (hyphen (by decide))).trans (if_pos found))

theorem accepts_of_written (known : form ∈ forms) (length : octets.length ∈ [6, 8, 20])
    (written : s.map Char.toLower = form.write octets) : accepts s = true := by
  have divides : ∀ form ∈ forms, ∀ n ∈ [6, 8, 20],
      n / form.size * form.size = n ∧ 1 < n / form.size := by decide
  obtain ⟨whole, several⟩ := divides form known octets.length length
  have count : (form.groups octets).length = octets.length / form.size :=
    length_cutInto form.size _ octets
  -- Separator, count and digits are all read off the pieces.
  have pieces := splitAt_written known (List.ne_nil_of_length_pos (by omega)) written
  have same : (splitAt form.separator s).length = octets.length / form.size := by
    have lengths := congrArg List.length pieces
    rwa [List.length_map, List.length_map, count] at lengths
  have groups : ∀ piece ∈ splitAt form.separator s, isGroup (2 * form.size) piece = true := by
    intro piece mem
    have lowered : piece.map Char.toLower ∈ (form.groups octets).map lowerDigits :=
      pieces ▸ List.mem_map_of_mem mem
    obtain ⟨g, among, eq⟩ := List.mem_map.mp lowered
    rw [← size_of_mem_cutInto (Nat.le_of_eq whole) g among]
    exact isGroup_of_lower eq.symm
  have grouping := grouping_of_pieces known (by omega) fun piece mem =>
    (Bool.and_eq_true_iff.mp (groups piece mem)).2
  have octet_count : octets.length / form.size * (2 * form.size) / 2 = octets.length := by
    rw [Nat.mul_comm 2, ← Nat.mul_assoc, Nat.mul_div_cancel _ (by decide), whole]
  unfold accepts
  rw [grouping]
  dsimp only
  rw [same, octet_count, List.all_eq_true.mpr groups, Bool.and_true]
  simpa [isOctetCount, or_assoc] using length

/-- Accepted are the texts of 6, 8 or 20 octets in one of the forms, in any mix of cases, and no
others. -/
theorem accepts_iff_written (s : List Char) :
    accepts s = true ↔ ∃ octets : List UInt8, octets.length ∈ [6, 8, 20] ∧
      ∃ form ∈ forms, s.map Char.toLower = form.write octets := by
  constructor
  · intro accepted
    obtain ⟨octets, length, colons | hyphens | dots⟩ := isAddress_of_accepts accepted
    · exact ⟨octets, length, ⟨':', 1⟩, by decide, written_of_grouped (by decide) colons⟩
    · exact ⟨octets, length, ⟨'-', 1⟩, by decide, written_of_grouped (by decide) hyphens⟩
    · exact ⟨octets, length, ⟨'.', 2⟩, by decide, written_of_grouped (by decide) dots⟩
  · rintro ⟨octets, length, form, known, written⟩
    exact accepts_of_written known length written

end Hotplug.HardwareAddress
