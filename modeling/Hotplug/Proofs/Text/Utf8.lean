import Hotplug.Text.Utf8
import Mathlib.Data.List.Basic
/-!
The bytes of a text are read as its characters, and none of them is stray. What is made of bytes
that are no text is not covered.
-/
namespace Hotplug.Text

theorem loop_toList (bytes : ByteArray) (i : Nat) (done : List UInt8) :
    ByteArray.toList.loop bytes i done = done.reverse ++ bytes.data.toList.drop i := by
  fun_induction ByteArray.toList.loop bytes i done with
  | case1 i done inside ih =>
    have place : i < bytes.data.toList.length := by simpa using inside
    have byte : bytes.get! i = bytes.data.toList[i] := by
      cases bytes
      exact getElem!_pos _ i place
    rw [ih, List.drop_eq_getElem_cons place, byte]
    simp
  | case2 i done outside =>
    have past : bytes.data.toList.length ≤ i := by simpa using outside
    rw [List.drop_eq_nil_of_le past]
    simp

theorem bytesOf_eq (text : String) : bytesOf text = text.toList.flatMap String.utf8EncodeChar := by
  have all (bytes : ByteArray) : bytes.toList = bytes.data.toList := loop_toList bytes 0 []
  have encoded : text.toUTF8 = (text.toList.flatMap String.utf8EncodeChar).toByteArray := by
    rw [String.toUTF8_eq_toByteArray, ← String.utf8Encode_toList]
    rfl
  rw [bytesOf, all, encoded, List.toList_data_toByteArray]

namespace Symbol

variable {n : Nat} {done : List Symbol}

theorem foldl_byte (small : n < 256) (bytes : List UInt8) (state : Option Pending × List Symbol) :
    (UInt8.ofNat n :: bytes).foldl (fun s b => step s b.toNat) state =
      bytes.foldl (fun s b => step s b.toNat) (step state n) := by
  rw [List.foldl_cons, UInt8.toNat_ofNat_of_lt' small]

theorem step_lead {owed low high : Nat} (above : 0x80 ≤ n) (lead : lead? n = some (owed, low, high)) :
    step (none, done) n = (some ⟨1, owed, low, high, leadBits n owed⟩, done) := by
  have wide : ¬ n < 0x80 := Nat.not_lt.mpr above
  simp [step, start, wide, lead]

theorem step_more {taken owed low high code : Nat} (above : low ≤ n) (below : n ≤ high) :
    step (some ⟨taken, owed + 2, low, high, code⟩, done) n =
      (some ⟨taken + 1, owed + 1, 0x80, 0xBF, code * 64 + n % 64⟩, done) := by
  simp [step, above, below]

theorem step_last {taken low high code : Nat} (above : low ≤ n) (below : n ≤ high) :
    step (some ⟨taken, 1, low, high, code⟩, done) n =
      (none, .char (Char.ofNat (code * 64 + n % 64)) :: done) := by
  simp [step, above, below]

theorem lead_two (low : 0xC2 ≤ n) (high : n ≤ 0xDF) : lead? n = some (1, 0x80, 0xBF) := by
  simp [lead?, low, high]

/-- The second byte of three is in the range that the first one sets: a character of three bytes
is no shorter one and no surrogate. -/
theorem lead_three {v : Nat} (long : 0x800 ≤ v) (short : v < 0x10000)
    (scalar : v < 0xD800 ∨ 0xDFFF < v) : ∃ low high,
      lead? (v / 4096 + 0xE0) = some (2, low, high) ∧
      low ≤ v / 64 % 64 + 0x80 ∧ v / 64 % 64 + 0x80 ≤ high := by
  unfold lead?
  by_cases zero : v / 4096 = 0
  · refine ⟨0xA0, 0xBF, by simp [zero], by omega, by omega⟩
  · by_cases surrogates : v / 4096 = 13
    · refine ⟨0x80, 0x9F, by simp [surrogates], by omega, by omega⟩
    · refine ⟨0x80, 0xBF, ?_, by omega, by omega⟩
      rw [if_neg (by omega), if_neg (by omega), if_neg (by omega), if_pos (by omega)]

theorem lead_four {v : Nat} (long : 0x10000 ≤ v) (short : v < 0x110000) : ∃ low high,
    lead? (v / 262144 + 0xF0) = some (3, low, high) ∧
      low ≤ v / 4096 % 64 + 0x80 ∧ v / 4096 % 64 + 0x80 ≤ high := by
  unfold lead?
  by_cases zero : v / 262144 = 0
  · refine ⟨0x90, 0xBF, by simp [zero], by omega, by omega⟩
  · by_cases last : v / 262144 = 4
    · refine ⟨0x80, 0x8F, by simp [last], by omega, by omega⟩
    · refine ⟨0x80, 0xBF, ?_, by omega, by omega⟩
      rw [if_neg (by omega), if_neg (by omega), if_neg (by omega), if_neg (by omega),
        if_neg (by omega), if_pos (by omega)]

theorem foldl_char (c : Char) (done : List Symbol) :
    (String.utf8EncodeChar c).foldl (fun s b => step s b.toNat) (none, done) =
      (none, .char c :: done) := by
  have scalar : c.toNat < 0xD800 ∨ 0xDFFF < c.toNat ∧ c.toNat < 0x110000 := c.valid
  have back {v : Nat} (same : v = c.toNat) : Char.ofNat v = c := by rw [same, Char.ofNat_toNat]
  unfold String.utf8EncodeChar
  have value : c.val.toNat = c.toNat := rfl
  simp only [value]
  generalize c.toNat = v at scalar back
  split
  · rename_i one
    rw [foldl_byte (by omega), List.foldl_nil]
    have ascii : v < 0x80 := by omega
    simp [step, start, ascii, back rfl]
  · split
    · rename_i one two
      have first : leadBits (v / 64 % 32 + 0xC0) 1 = v / 64 := by
        simp only [leadBits, Nat.pow_eq]
        omega
      rw [foldl_byte (by omega), foldl_byte (by omega), List.foldl_nil,
        step_lead (by omega) (lead_two (by omega) (by omega)),
        step_last (by omega) (by omega), first, back (by omega)]
    · split
      · rename_i one two three
        obtain ⟨low, high, lead, above, below⟩ :=
          lead_three (v := v) (by omega) (by omega) (by omega)
        have code : v / 4096 % 16 + 0xE0 = v / 4096 + 0xE0 := by omega
        have first : leadBits (v / 4096 + 0xE0) 2 = v / 4096 := by
          simp only [leadBits, Nat.pow_eq]
          omega
        rw [code, foldl_byte (by omega), foldl_byte (by omega), foldl_byte (by omega),
          List.foldl_nil, step_lead (by omega) lead, step_more above below,
          step_last (by omega) (by omega), first, back (by omega)]
      · rename_i one two three
        obtain ⟨low, high, lead, above, below⟩ := lead_four (v := v) (by omega) (by omega)
        have code : v / 262144 % 8 + 0xF0 = v / 262144 + 0xF0 := by omega
        have first : leadBits (v / 262144 + 0xF0) 3 = v / 262144 := by
          simp only [leadBits, Nat.pow_eq]
          omega
        rw [code, foldl_byte (by omega), foldl_byte (by omega), foldl_byte (by omega),
          foldl_byte (by omega), List.foldl_nil, step_lead (by omega) lead,
          step_more above below,
          step_more (by omega) (by omega),
          step_last (by omega) (by omega), first, back (by omega)]

theorem ofBytes_bytesOf (text : String) : ofBytes (bytesOf text) = ofText text := by
  have all (cs : List Char) (done : List Symbol) :
      (cs.flatMap String.utf8EncodeChar).foldl (fun s b => step s b.toNat) (none, done) =
        (none, (cs.map Symbol.char).reverse ++ done) := by
    induction cs generalizing done with
    | nil => rfl
    | cons c cs ih =>
      rw [List.flatMap_cons, List.foldl_append, foldl_char, ih]
      simp
  have whole := all text.toList []
  rw [← bytesOf_eq, List.append_nil] at whole
  simp [ofBytes, whole, ofText]

theorem text_ofText (text : String) : text? (ofText text) = some text := by
  have all (cs : List Char) : (cs.map Symbol.char).mapM char? = some cs := by
    induction cs with
    | nil => rfl
    | cons c cs ih => simp [List.mapM_cons, ih, char?]
  simp [text?, ofText, all]

end Symbol

theorem bytesOf_isEmpty {text : String} (nonempty : text ≠ "") : (bytesOf text).isEmpty = false := by
  rw [bytesOf_eq]
  cases chars : text.toList with
  | nil => exact absurd (String.toList_eq_nil_iff.mp chars) nonempty
  | cons c cs => simp [String.utf8EncodeChar_ne_nil]

end Hotplug.Text
