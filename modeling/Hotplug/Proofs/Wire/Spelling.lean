import Hotplug.Proofs.Text.Utf8
import Hotplug.Wire
import Mathlib.Algebra.Group.Nat.Defs
/-!
How numbers, keys and fields are spelled in bytes, apart from how they are read. A number may have
more bytes than it needs, and a field may be a group of further fields. The readers take all of
that for what it is, and what is written is spelled so. Bytes that spell nothing are not covered.
-/
namespace Hotplug.Wire

open Text

/-- Seven bits of the number in each byte, the lowest first; every byte but the last is marked. -/
inductive Septets : Nat → List UInt8 → Prop
  | last {b : UInt8} : b.toNat < 128 → Septets b.toNat [b]
  | more {b : UInt8} {n : Nat} {bytes : List UInt8} : 128 ≤ b.toNat → Septets n bytes →
    Septets (b.toNat - 128 + 128 * n) (b :: bytes)

/-- A number of 64 bits in at most ten bytes. -/
structure Varint (n : Nat) (bytes : List UInt8) : Prop where
  septets : Septets n bytes
  short : bytes.length ≤ 10
  small : n < 2 ^ 64

variable {n number left : Nat} {kind : Kind} {bytes rest content key value : List UInt8}

theorem Septets.length_pos (spelled : Septets n bytes) : 0 < bytes.length := by
  cases spelled <;> simp

theorem Septets.varintFrom (spelled : Septets n bytes) (short : bytes.length ≤ left + 1)
    (small : n < 2 ^ (7 * left + 1)) (rest : List UInt8) :
    varintFrom (left + 1) (bytes ++ rest) = some (n, rest) := by
  induction spelled generalizing left with
  | @last b low =>
    have byte : b < 128 := UInt8.lt_iff_toNat_lt.mpr low
    -- Nine bytes have 63 bits, which leaves one for the tenth.
    have tenth : ¬ (left = 0 ∧ 1 < b) := by
      intro both
      obtain ⟨rfl, big⟩ := both
      have above := UInt8.lt_iff_toNat_lt.mp big
      simp at above small
      omega
    simp [Wire.varintFrom, byte, tenth]
  | @more b m bytes high spelled ih =>
    have marked : ¬ b < 128 := by
      intro byte
      have low := UInt8.lt_iff_toNat_lt.mp byte
      simp at low
      omega
    have length := spelled.length_pos
    simp only [List.length_cons] at short
    obtain ⟨less, rfl⟩ : ∃ less, left = less + 1 := ⟨left - 1, by omega⟩
    have power : 2 ^ (7 * (less + 1) + 1) = 128 * 2 ^ (7 * less + 1) := by
      rw [Nat.mul_add, Nat.add_right_comm, Nat.pow_add]
      omega
    have rest_small : m < 2 ^ (7 * less + 1) := by omega
    simp [Wire.varintFrom, marked, ih (by omega) rest_small]

theorem Varint.read (spelled : Varint n bytes) (rest : List UInt8) :
    readVarint (bytes ++ rest) = some (n, rest) :=
  spelled.septets.varintFrom spelled.short spelled.small rest

theorem toNat_byte (small : n < 256) : (UInt8.ofNat n).toNat = n :=
  UInt8.toNat_ofNat_of_lt' small

theorem septets_byte (low : n < 128) : Septets n [UInt8.ofNat n] := by
  have value : (UInt8.ofNat n).toNat = n := toNat_byte (by omega)
  have one : Septets (UInt8.ofNat n).toNat [UInt8.ofNat n] := .last (by omega)
  rwa [value] at one

theorem septets_varintOf (small : n < 128 ^ (left + 1)) :
    Septets n (varintOf left n) ∧ (varintOf left n).length ≤ left + 1 := by
  induction left generalizing n with
  | zero =>
    have low : n < 128 := by simpa using small
    have same : n % 128 = n := Nat.mod_eq_of_lt low
    simpa [varintOf, same] using septets_byte low
  | succ left ih =>
    by_cases low : n < 128
    · simpa [varintOf, low] using septets_byte low
    · have value : (UInt8.ofNat (n % 128 + 128)).toNat = n % 128 + 128 := toNat_byte (by omega)
      have quotient : n / 128 < 128 ^ (left + 1) := by
        rw [Nat.pow_succ] at small
        omega
      obtain ⟨spelled, short⟩ := ih quotient
      have more := Septets.more (b := UInt8.ofNat (n % 128 + 128)) (by omega) spelled
      have whole : n % 128 + 128 - 128 + 128 * (n / 128) = n := by omega
      rw [value, whole] at more
      simp only [varintOf, low, if_false, List.length_cons]
      exact ⟨more, by omega⟩

theorem varint_writeVarint (small : n < 2 ^ 64) : Varint n (writeVarint n) := by
  have below : n < 128 ^ (9 + 1) := by omega
  obtain ⟨septets, short⟩ := septets_varintOf below
  exact ⟨septets, short, small⟩

structure Key (number : Nat) (kind : Kind) (bytes : List UInt8) : Prop where
  positive : 0 < number
  small : number < 2 ^ 29
  varint : Varint (number * 8 + kind.code) bytes

theorem Kind.code_lt (kind : Kind) : kind.code < 8 := by
  cases kind <;> decide

theorem Kind.ofCode_code (kind : Kind) : Kind.ofCode? kind.code = some kind := by
  cases kind <;> rfl

theorem Key.read (spelled : Key number kind bytes) (rest : List UInt8) :
    readKey (bytes ++ rest) = some (number, kind, rest) := by
  have code := kind.code_lt
  have positive := spelled.positive
  have small := spelled.small
  have kind_eq : (number * 8 + kind.code) % 8 = kind.code := by omega
  have number_eq : (number * 8 + kind.code) / 8 = number := by omega
  have fits : number * 8 + kind.code < UInt32.size ∧ 8 ≤ number * 8 + kind.code := by
    have size : UInt32.size = 2 ^ 32 := rfl
    omega
  simp only [readKey, spelled.varint.read, Option.bind_eq_bind, Option.bind_some, kind_eq,
    Kind.ofCode_code, number_eq, fits, and_self, if_true]
  rfl

theorem Key.length_pos (spelled : Key number kind bytes) : 0 < bytes.length :=
  spelled.varint.septets.length_pos

theorem key_writeKey (positive : 0 < number) (small : number < 2 ^ 29) (kind : Kind) :
    Key number kind (writeKey number kind) := by
  have code := kind.code_lt
  exact ⟨positive, small, varint_writeVarint (by omega)⟩

theorem key_byte (kind : Kind) (positive : 0 < number) (low : number < 16) :
    Key number kind [UInt8.ofNat (number * 8 + kind.code)] := by
  have code := kind.code_lt
  have septets := septets_byte (n := number * 8 + kind.code) (by omega)
  exact ⟨positive, by omega, septets, by simp, by omega⟩

theorem takeBytes_append (content rest : List UInt8) :
    takeBytes content.length (content ++ rest) = some (content, rest) := by
  simp [takeBytes]

theorem readBytes_spelled (length : Varint content.length bytes) (rest : List UInt8) :
    readBytes (bytes ++ (content ++ rest)) = some (content, rest) := by
  simp only [readBytes, length.read, Option.bind_eq_bind, Option.bind_some]
  exact takeBytes_append content rest

theorem readText_spelled {text : String} (length : Varint (bytesOf text).length bytes)
    (rest : List UInt8) : readText (bytes ++ (bytesOf text ++ rest)) = some (text, rest) := by
  simp only [readText, readBytes_spelled length, Option.bind_eq_bind, Option.bind_some,
    Symbol.ofBytes_bytesOf, Symbol.text_ofText]
  rfl

/-- The value of a field that is no group. -/
inductive Plain : Kind → List UInt8 → Prop
  | varint {n : Nat} {bytes : List UInt8} : Varint n bytes → Plain .varint bytes
  | fixed64 {bytes : List UInt8} : bytes.length = 8 → Plain .fixed64 bytes
  | bytes {length content : List UInt8} : Varint content.length length →
    Plain .bytes (length ++ content)
  | fixed32 {bytes : List UInt8} : bytes.length = 4 → Plain .fixed32 bytes

theorem Plain.skip (spelled : Plain kind value) (rest : List UInt8) :
    skipPlain kind (value ++ rest) = some rest := by
  cases spelled with
  | varint number => simp [skipPlain, number.read]
  | fixed64 length => simp [skipPlain, ← length, takeBytes_append]
  | bytes length =>
    rw [List.append_assoc]
    simp [skipPlain, readBytes_spelled length]
  | fixed32 length => simp [skipPlain, ← length, takeBytes_append]

/-- Fields one after another, with allowed numbers. No field is inside so many groups or more. -/
inductive Fields : (Nat → Prop) → Nat → List UInt8 → Prop
  | nothing {allowed : Nat → Prop} {depth : Nat} : Fields allowed depth []
  | plain {allowed : Nat → Prop} {depth number : Nat} {kind : Kind} {key value rest : List UInt8} :
    allowed number → Key number kind key → Plain kind value → Fields allowed (depth + 1) rest →
    Fields allowed (depth + 1) (key ++ (value ++ rest))
  | group {allowed : Nat → Prop} {depth number : Nat} {start inside stop rest : List UInt8} :
    allowed number → Key number .groupStart start → Fields (fun _ => True) depth inside →
    Key number .groupEnd stop → Fields allowed (depth + 1) rest →
    Fields allowed (depth + 1) (start ++ (inside ++ (stop ++ rest)))

variable {depth inner : Nat} {outer : List Nat} {out start inside stop : List UInt8}
  {allowed : Nat → Prop}

theorem fields_one (known : allowed number) (spelled : Key number kind key)
    (own : Plain kind value) : Fields allowed (depth + 1) (key ++ value) := by
  have nothing : Fields allowed (depth + 1) [] := .nothing
  have whole := Fields.plain known spelled own nothing
  rwa [List.append_nil] at whole

theorem fields_group (known : allowed number) (opens : Key number .groupStart start)
    (fields : Fields (fun _ => True) depth inside) (closes : Key number .groupEnd stop) :
    Fields allowed (depth + 1) (start ++ (inside ++ stop)) := by
  have nothing : Fields allowed (depth + 1) [] := .nothing
  have whole := Fields.group known opens fields closes nothing
  rwa [List.append_nil] at whole

/-- From inside the open groups, the reader gets past the last of them to what is left. -/
def Leaves (depth : Nat) (groups : List Nat) (bytes left : List UInt8) : Prop :=
  ∀ fuel, bytes.length < fuel → skipGroups depth fuel groups bytes = some left

theorem leaves_nil : Leaves depth [] bytes bytes := by
  intro fuel enough
  cases fuel <;> rfl

theorem leaves_plain (shallow : outer.length + 1 < depth) (spelled : Key number kind key)
    (own : Plain kind value) (leaves : Leaves depth (inner :: outer) rest out) :
    Leaves depth (inner :: outer) (key ++ (value ++ rest)) out := by
  intro fuel enough
  have progress := spelled.length_pos
  simp only [List.length_append] at enough
  obtain ⟨less, rfl⟩ : ∃ less, fuel = less + 1 := ⟨fuel - 1, by omega⟩
  have onward := leaves less (by omega)
  have skipped := own.skip rest
  generalize value ++ rest = tail at skipped
  cases own <;> simp [skipGroups, spelled.read, shallow, skipped, onward]

theorem leaves_start (shallow : outer.length + 1 < depth)
    (spelled : Key number .groupStart key)
    (leaves : Leaves depth (number :: inner :: outer) rest out) :
    Leaves depth (inner :: outer) (key ++ rest) out := by
  intro fuel enough
  have progress := spelled.length_pos
  rw [List.length_append] at enough
  obtain ⟨less, rfl⟩ : ∃ less, fuel = less + 1 := ⟨fuel - 1, by omega⟩
  have onward := leaves less (by omega)
  simp [skipGroups, spelled.read, shallow, onward]

theorem leaves_stop (spelled : Key inner .groupEnd key) (leaves : Leaves depth outer rest out) :
    Leaves depth (inner :: outer) (key ++ rest) out := by
  intro fuel enough
  have progress := spelled.length_pos
  rw [List.length_append] at enough
  obtain ⟨less, rfl⟩ : ∃ less, fuel = less + 1 := ⟨fuel - 1, by omega⟩
  have onward := leaves less (by omega)
  simp [skipGroups, spelled.read, onward]

/-- Whole fields inside a group change nothing about where the reader gets to. -/
theorem Fields.leaves {levels : Nat} (fields : Fields allowed levels bytes)
    (room : outer.length + 1 + levels ≤ depth) (leaves : Leaves depth (inner :: outer) rest out) :
    Leaves depth (inner :: outer) (bytes ++ rest) out := by
  induction fields generalizing inner outer rest with
  | nothing => exact leaves
  | plain _ key value _ ih =>
    rw [List.append_assoc, List.append_assoc]
    exact leaves_plain (by omega) key value (ih room leaves)
  | group _ start _ stop _ inside ih =>
    rw [List.append_assoc, List.append_assoc, List.append_assoc]
    apply leaves_start (by omega) start
    apply inside
    · simp only [List.length_cons]
      omega
    · exact leaves_stop stop (ih room leaves)

theorem skip_plain (own : Plain kind value) (depth number : Nat) (rest : List UInt8) :
    skip depth number kind (value ++ rest) = some rest := by
  have skipped := own.skip rest
  cases own <;> exact skipped

theorem skip_group (fields : Fields (fun _ => True) depth inside)
    (ends : Key number .groupEnd stop) (rest : List UInt8) :
    skip (depth + 1) number .groupStart (inside ++ (stop ++ rest)) = some rest := by
  have leaves : Leaves (depth + 1) [number] (inside ++ (stop ++ rest)) rest := by
    apply fields.leaves
    · simp only [List.length_nil]
      omega
    · exact leaves_stop ends leaves_nil
  exact leaves _ (Nat.lt_succ_self _)

end Hotplug.Wire
