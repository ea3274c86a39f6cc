import Hotplug.Text.Base64
/-!
Base64 is read back, whatever the bytes and however many.
-/
namespace Hotplug.Text.Base64

variable {n : Nat}

theorem value_symbol (small : n < 64) : value? (symbol n) = some n := by
  have all : ∀ n < 64, value? (symbol n) = some n := by decide
  exact all n small

theorem symbol_ne_pad (small : n < 64) : symbol n ≠ '=' := by
  have all : ∀ n < 64, symbol n ≠ '=' := by decide
  exact all n small

def groups : List UInt8 → List Char
  | a :: b :: c :: rest => group a b c ++ groups rest
  | [a, b] => (group a b 0).take 3 ++ ['=']
  | [a] => (group a 0 0).take 2 ++ ['=', '=']
  | [] => []

theorem encodeOnto_reverse (bytes : List UInt8) (done : List Char) :
    (encodeOnto bytes done).reverse = done.reverse ++ groups bytes := by
  fun_induction encodeOnto bytes done with
  | case1 a b c rest done ih =>
    rw [ih, groups]
    simp
  | case2 a b done => simp [groups]
  | case3 a done => simp [groups]
  | case4 done => simp [groups]

def word (a b c : UInt8) : Nat := a.toNat * 65536 + b.toNat * 256 + c.toNat

theorem word_lt (a b c : UInt8) : word a b c < 16777216 := by
  have := a.toNat_lt
  have := b.toNat_lt
  have := c.toNat_lt
  unfold word
  omega

theorem bytes_of_word (a b c : UInt8) : UInt8.ofNat (word a b c / 65536) = a ∧
    UInt8.ofNat (word a b c / 256 % 256) = b ∧ UInt8.ofNat (word a b c % 256) = c := by
  have := a.toNat_lt
  have := b.toNat_lt
  have := c.toNat_lt
  have first : word a b c / 65536 = a.toNat := by
    unfold word
    omega
  have second : word a b c / 256 % 256 = b.toNat := by
    unfold word
    omega
  have third : word a b c % 256 = c.toNat := by
    unfold word
    omega
  rw [first, second, third]
  exact ⟨UInt8.ofNat_toNat, UInt8.ofNat_toNat, UInt8.ofNat_toNat⟩

section
variable {p q r s : Nat} (hp : p < 64) (hq : q < 64)
include hp hq

theorem decodeGroups_symbols (hr : r < 64) (hs : s < 64) (rest : List Char) :
    decodeGroups (symbol p :: symbol q :: symbol r :: symbol s :: rest) =
      (decodeGroups rest).map fun more =>
        let n := p * 262144 + q * 4096 + r * 64 + s
        UInt8.ofNat (n / 65536) :: UInt8.ofNat (n / 256 % 256) :: UInt8.ofNat (n % 256) :: more := by
  have unpadded := symbol_ne_pad hs
  rw [decodeGroups]
  · simp only [value_symbol hp, value_symbol hq, value_symbol hr, value_symbol hs]
    cases decodeGroups rest <;> rfl
  · intro _ last
    exact absurd last unpadded
  · intro last
    exact absurd last unpadded

theorem decodeGroups_pad (hr : r < 64) : decodeGroups [symbol p, symbol q, symbol r, '='] =
    some [UInt8.ofNat ((p * 4096 + q * 64 + r) / 1024),
      UInt8.ofNat ((p * 4096 + q * 64 + r) / 4 % 256)] := by
  have unpadded := symbol_ne_pad hr
  rw [decodeGroups]
  · simp only [value_symbol hp, value_symbol hq, value_symbol hr]
    rfl
  · intro third
    exact absurd third unpadded

theorem decodeGroups_pads : decodeGroups [symbol p, symbol q, '=', '='] =
    some [UInt8.ofNat ((p * 64 + q) / 16)] := by
  rw [decodeGroups, value_symbol hp, value_symbol hq]
  rfl

end

theorem decodeGroups_groups (bytes : List UInt8) : decodeGroups (groups bytes) = some bytes := by
  fun_induction groups bytes with
  | case1 a b c rest ih =>
    have small := word_lt a b c
    obtain ⟨first, second, third⟩ := bytes_of_word a b c
    have whole : word a b c / 262144 * 262144 + word a b c / 4096 % 64 * 4096 +
        word a b c / 64 % 64 * 64 + word a b c % 64 = word a b c := by omega
    have read := decodeGroups_symbols (p := word a b c / 262144) (q := word a b c / 4096 % 64)
      (r := word a b c / 64 % 64) (s := word a b c % 64) (by omega) (by omega) (by omega) (by omega)
      (groups rest)
    simp only [whole, first, second, third, ih, Option.map_some] at read
    exact read
  | case2 a b =>
    have small := word_lt a b 0
    obtain ⟨first, second, -⟩ := bytes_of_word a b 0
    have read := decodeGroups_pad (p := word a b 0 / 262144) (q := word a b 0 / 4096 % 64)
      (r := word a b 0 / 64 % 64) (by omega) (by omega) (by omega)
    have high : (word a b 0 / 262144 * 4096 + word a b 0 / 4096 % 64 * 64 +
        word a b 0 / 64 % 64) / 1024 = word a b 0 / 65536 := by omega
    have low : (word a b 0 / 262144 * 4096 + word a b 0 / 4096 % 64 * 64 +
        word a b 0 / 64 % 64) / 4 % 256 = word a b 0 / 256 % 256 := by omega
    rw [high, low, first, second] at read
    exact read
  | case3 a =>
    have small := word_lt a 0 0
    obtain ⟨first, -, -⟩ := bytes_of_word a 0 0
    have read := decodeGroups_pads (p := word a 0 0 / 262144) (q := word a 0 0 / 4096 % 64)
      (by omega) (by omega)
    have high : (word a 0 0 / 262144 * 64 + word a 0 0 / 4096 % 64) / 16 =
        word a 0 0 / 65536 := by omega
    rw [high, first] at read
    exact read
  | case4 => rfl

theorem decode_encode (bytes : List UInt8) : decode (encode bytes) = some bytes := by
  rw [decode, encode, String.toList_ofList, encodeOnto_reverse]
  exact decodeGroups_groups bytes

end Hotplug.Text.Base64
