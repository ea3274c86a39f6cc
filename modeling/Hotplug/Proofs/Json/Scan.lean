import Hotplug.Json.Token
import Mathlib.Data.List.Basic
/-!
Reading of tokens one by one: no reading gives symbols back that it did not get, so that the
fuel of the tokens does not matter. What is written between quotes is read as the text itself.
-/
namespace Hotplug.Json

open Hotplug.Text

theorem bind_ok {ε α β : Type} {x : Except ε α} {f : α → Except ε β} {b : β} :
    (x >>= f) = .ok b ↔ ∃ a, x = .ok a ∧ f a = .ok b := by
  cases x <;> simp [bind, Except.bind]

def symbols (cs : List Char) : List Symbol := cs.map Symbol.char

@[simp]
theorem symbols_nil : symbols [] = [] := rfl

@[simp]
theorem symbols_cons (c : Char) (cs : List Char) : symbols (c :: cs) = .char c :: symbols cs := rfl

@[simp]
theorem symbols_append (cs ds : List Char) : symbols (cs ++ ds) = symbols cs ++ symbols ds :=
  List.map_append

theorem skipBlanks_length (s : List Symbol) : (skipBlanks s).length ≤ s.length := by
  fun_induction skipBlanks s with
  | case1 c rest blank ih => exact Nat.le_trans ih (Nat.le_succ _)
  | case2 c rest blank => exact Nat.le_refl _
  | case3 rest other => exact Nat.le_refl _

theorem scanString_length (s : List Symbol) (q : Quoted) :
    (scanString s q).2.length ≤ s.length := by
  fun_induction scanString s q <;> simp_all <;> omega

theorem keyword_length {ks : List Char} {s rest : List Symbol} (h : keyword ks s = .ok rest) :
    rest.length ≤ s.length := by
  fun_induction keyword ks s with
  | case1 s => simp_all
  | case2 => simp at h
  | case3 k ks s' ih => exact Nat.le_trans (ih h) (Nat.le_succ _)
  | case4 => simp at h

theorem scanLiteral_length (rest : List Char) (value : Literal) (s : List Symbol) :
    (scanLiteral rest value s).2.length ≤ s.length := by
  unfold scanLiteral
  split
  · rename_i found
    exact keyword_length found
  · simp

namespace Numeral

theorem spanDigits_length (s : List Symbol) (taken : List Nat) :
    (spanDigits s taken).2.length ≤ s.length := by
  fun_induction spanDigits s taken with
  | case1 c rest taken d digit ih => exact Nat.le_trans ih (Nat.le_succ _)
  | case2 => exact Nat.le_refl _
  | case3 => exact Nat.le_refl _

theorem someDigits_length {s rest : List Symbol} {digits : List Nat}
    (h : someDigits s = .ok (digits, rest)) : rest.length ≤ s.length := by
  unfold someDigits at h
  split at h
  · simp at h
  · split at h
    · simp at h
    · have found := Except.ok.inj h
      have shrinks := spanDigits_length s []
      rwa [found] at shrinks

theorem someDigits_length_lt {c : Char} {d : Nat} (digit : digitValue? c = some d)
    {s rest : List Symbol} {digits : List Nat}
    (h : someDigits (.char c :: s) = .ok (digits, rest)) : rest.length ≤ s.length := by
  have front : spanDigits (.char c :: s) [] = spanDigits s [d] := by simp [spanDigits, digit]
  simp only [someDigits, front] at h
  split at h
  · simp at h
  · have found := Except.ok.inj h
    have shrinks := spanDigits_length s [d]
    rwa [found] at shrinks

theorem scanWhole_ok {s rest : List Symbol} {digits : List Nat}
    (h : scanWhole s = .ok (digits, rest)) : someDigits s = .ok (digits, rest) := by
  obtain ⟨⟨ds, more⟩, found, kept⟩ := bind_ok.mp h
  dsimp only at kept
  split at kept
  · simp at kept
  · obtain ⟨rfl, rfl⟩ := Prod.mk.inj (Except.ok.inj kept)
    exact found

theorem scanFraction_length {s rest : List Symbol} {digits : List Nat}
    (h : scanFraction s = .ok (digits, rest)) : rest.length ≤ s.length := by
  unfold scanFraction at h
  split at h
  · exact Nat.le_trans (someDigits_length h) (Nat.le_succ _)
  · obtain ⟨-, rfl⟩ := Prod.mk.inj (Except.ok.inj h)
    exact Nat.le_refl _

def exponentSign : List Symbol → Bool × List Symbol
  | .char '+' :: more => (false, more)
  | .char '-' :: more => (true, more)
  | rest => (false, rest)

theorem exponentSign_length (s : List Symbol) : (exponentSign s).2.length ≤ s.length := by
  unfold exponentSign
  split <;> simp

def exponentDigits (s : List Symbol) : Except Fault (Option Int × List Symbol) := do
  let (digits, rest) ← someDigits (exponentSign s).2
  return (some (signed (exponentSign s).1 (ofDigits digits)), rest)

theorem scanExponent_letter {c : Char} (letter : c = 'e' ∨ c = 'E') (s : List Symbol) :
    scanExponent (.char c :: s) = exponentDigits s := by
  rcases letter with rfl | rfl <;> simp only [scanExponent, exponentDigits, exponentSign] <;>
    split <;> simp_all

theorem scanExponent_none {s : List Symbol} (other : ∀ c rest, s = .char c :: rest →
    c ≠ 'e' ∧ c ≠ 'E') : scanExponent s = .ok (none, s) := by
  unfold scanExponent
  split
  · exact absurd rfl (other _ _ rfl).1
  · exact absurd rfl (other _ _ rfl).2
  · rfl

theorem scanExponent_length {s rest : List Symbol} {exponent : Option Int}
    (h : scanExponent s = .ok (exponent, rest)) : rest.length ≤ s.length := by
  have letters (c : Char) (more : List Symbol) (letter : c = 'e' ∨ c = 'E')
      (eq : s = .char c :: more) : rest.length ≤ s.length := by
    rw [eq, scanExponent_letter letter] at h
    obtain ⟨⟨ds, left⟩, found, kept⟩ := bind_ok.mp h
    obtain ⟨-, rfl⟩ := Prod.mk.inj (Except.ok.inj kept)
    have shrinks := someDigits_length found
    have sign := exponentSign_length more
    rw [eq, List.length_cons]
    omega
  by_cases other : ∀ c more, s = .char c :: more → c ≠ 'e' ∧ c ≠ 'E'
  · rw [scanExponent_none other] at h
    obtain ⟨-, rfl⟩ := Prod.mk.inj (Except.ok.inj h)
    exact Nat.le_refl _
  · simp only [not_forall, not_and_or, not_not] at other
    obtain ⟨c, more, eq, letter⟩ := other
    exact letters c more letter eq

theorem scan_length {negative : Bool} {s rest : List Symbol} {numeral : Numeral}
    (h : scan negative s = .ok (numeral, rest)) :
    ∃ digits more, someDigits s = .ok (digits, more) ∧ rest.length ≤ more.length := by
  obtain ⟨⟨whole, afterWhole⟩, wholeFound, h⟩ := bind_ok.mp h
  obtain ⟨⟨fraction, afterFraction⟩, fractionFound, h⟩ := bind_ok.mp h
  obtain ⟨⟨exponent, afterExponent⟩, exponentFound, kept⟩ := bind_ok.mp h
  obtain ⟨-, rfl⟩ := Prod.mk.inj (Except.ok.inj kept)
  exact ⟨whole, afterWhole, scanWhole_ok wholeFound,
    Nat.le_trans (scanExponent_length exponentFound) (scanFraction_length fractionFound)⟩

end Numeral

theorem scanNumber_length (negative : Bool) (s : List Symbol) :
    (scanNumber negative s).2 = [] ∨
      ∃ digits more, Numeral.someDigits s = .ok (digits, more) ∧
        (scanNumber negative s).2.length ≤ more.length := by
  unfold scanNumber
  split
  · exact .inl rfl
  · rename_i numeral rest found
    split <;> exact .inr (Numeral.scan_length found)

/-- A token takes at least its first symbol. -/
theorem scanToken_length (c : Char) (rest : List Symbol) :
    (scanToken c rest).2.length ≤ rest.length := by
  unfold scanToken
  split
  case h_7 => exact scanString_length rest .empty
  case h_8 => exact scanLiteral_length _ _ rest
  case h_9 => exact scanLiteral_length _ _ rest
  case h_10 => exact scanLiteral_length _ _ rest
  case h_11 =>
    rcases scanNumber_length true rest with none | ⟨digits, more, found, shrinks⟩
    · simp [none]
    · exact Nat.le_trans shrinks (Numeral.someDigits_length found)
  case h_12 =>
    split
    · rename_i digit
      obtain ⟨d, digit⟩ := Option.isSome_iff_exists.mp digit
      rcases scanNumber_length false (.char c :: rest) with none | ⟨digits, more, found, shrinks⟩
      · simp [none]
      · exact Nat.le_trans shrinks (Numeral.someDigits_length_lt digit found)
    · exact Nat.le_refl _
  all_goals exact Nat.le_refl _

theorem tokensOnto_done (fuel : Nat) (s : List Symbol) (done : List Token) :
    tokensOnto fuel s done = done.reverse ++ tokensOnto fuel s [] := by
  induction fuel generalizing s done with
  | zero => simp [tokensOnto]
  | succ fuel ih =>
    simp only [tokensOnto]
    split
    · simp
    · rename_i rest _
      rw [ih rest (_ :: done), ih rest [_]]
      simp
    · rename_i c rest _
      rw [ih _ (_ :: done), ih _ [_]]
      simp

/-- As much fuel as symbols is enough, and more does not matter. -/
theorem tokensOnto_fuel {n m : Nat} {s : List Symbol} (hn : s.length ≤ n) (hm : s.length ≤ m) :
    tokensOnto n s [] = tokensOnto m s [] := by
  -- a token takes a symbol at least, so that both fuels outlast the symbols that are left
  induction n generalizing m s with
  | zero =>
    obtain rfl : s = [] := List.length_eq_zero_iff.mp (Nat.le_zero.mp hn)
    cases m <;> simp [tokensOnto, skipBlanks]
  | succ n ih =>
    cases m with
    | zero =>
      obtain rfl : s = [] := List.length_eq_zero_iff.mp (Nat.le_zero.mp hm)
      simp [tokensOnto, skipBlanks]
    | succ m =>
      have shrinks := skipBlanks_length s
      simp only [tokensOnto]
      split
      · rfl
      · rename_i size rest eq
        rw [eq, List.length_cons] at shrinks
        have rest_same : tokensOnto n rest [] = tokensOnto m rest [] := ih (by omega) (by omega)
        rw [tokensOnto_done n, tokensOnto_done m, rest_same]
      · rename_i c rest eq
        rw [eq, List.length_cons] at shrinks
        have takes := scanToken_length c rest
        have rest_same : tokensOnto n (scanToken c rest).2 [] =
          tokensOnto m (scanToken c rest).2 [] := ih (by omega) (by omega)
        rw [tokensOnto_done n, tokensOnto_done m, rest_same]

theorem tokens_nil {s : List Symbol} (blank : skipBlanks s = []) : tokens s = [] := by
  unfold tokens
  cases s with
  | nil => rfl
  | cons symbol s => simp [tokensOnto, blank]

theorem tokens_cons {c : Char} {s rest : List Symbol} (front : skipBlanks s = .char c :: rest) :
    tokens s = (scanToken c rest).1 :: tokens (scanToken c rest).2 := by
  have shrinks := skipBlanks_length s
  have takes := scanToken_length c rest
  rw [front, List.length_cons] at shrinks
  unfold tokens
  cases s with
  | nil => simp [skipBlanks] at front
  | cons symbol s =>
    rw [List.length_cons] at shrinks
    simp only [List.length_cons, tokensOnto, front]
    rw [tokensOnto_done, tokensOnto_fuel (by omega) (Nat.le_refl _)]
    rfl

theorem skipBlanks_newLine (level : Nat) (s : List Symbol) :
    skipBlanks (symbols (newLine level) ++ s) = skipBlanks s := by
  have spaces (n : Nat) : skipBlanks (symbols (List.replicate n ' ') ++ s) = skipBlanks s := by
    induction n with
    | zero => rfl
    | succ n ih => simpa [List.replicate_succ, skipBlanks, isJsonBlank] using ih
  simpa [newLine, skipBlanks, isJsonBlank] using spaces (4 * level)

theorem hexValue_hexDigit {n : Nat} (h : n < 16) : hexValue? (hexDigit n) = some n := by
  have all : ∀ n < 16, hexValue? (hexDigit n) = some n := by decide
  exact all n h

theorem scanString_control {n : Nat} (h : n < 0x20) (rest : List Symbol) (taken : List Char) :
    scanString (symbols ['\\', 'u', '0', '0', hexDigit (n / 16), hexDigit (n % 16)] ++ rest)
        ⟨taken, none, none, false⟩ =
      scanString rest ⟨Char.ofNat n :: taken, none, none, false⟩ := by
  have high := hexValue_hexDigit (n := n / 16) (by omega)
  have low := hexValue_hexDigit (n := n % 16) (by omega)
  have zero : hexValue? '0' = some 0 := by decide
  have code : Quoted.hex4? (.char '0') (.char '0') (.char (hexDigit (n / 16)))
      (.char (hexDigit (n % 16))) = some n := by
    simp [Quoted.hex4?, Symbol.char?, high, low, zero]
    omega
  have plain : ¬ (0xDC00 ≤ n ∧ n ≤ 0xDFFF) := by omega
  have lone : ¬ (0xD800 ≤ n ∧ n ≤ 0xDBFF) := by omega
  simp [scanString, code, Quoted.unit, plain, lone, Quoted.settle]

theorem scanString_escape (c : Char) (rest : List Symbol) (taken : List Char) :
    scanString (symbols (escape c) ++ rest) ⟨taken, none, none, false⟩ =
      scanString rest ⟨c :: taken, none, none, false⟩ := by
  have of_number (n : Nat) (number : c.toNat = n) : c = Char.ofNat n := by
    rw [← number, Char.ofNat_toNat]
  unfold escape
  split
  · rename_i quote
    subst quote
    simp [scanString, Quoted.plainEscape?, Quoted.push, Quoted.settle]
  · split
    · rename_i backslash
      subst backslash
      simp [scanString, Quoted.plainEscape?, Quoted.push, Quoted.settle]
    · split
      · rename_i control
        split
        case h_6 =>
          have shown := scanString_control control rest taken
          rwa [Char.ofNat_toNat] at shown
        all_goals
          rename_i number
          rw [of_number _ number]
          simp [scanString, Quoted.plainEscape?, Quoted.push, Quoted.settle]
      · rename_i notQuote notBackslash printed
        simp [scanString, Quoted.push, Quoted.settle, notQuote, printed]

theorem scanString_escapes (cs : List Char) (rest : List Symbol) (taken : List Char) :
    scanString (symbols (cs.flatMap escape) ++ rest) ⟨taken, none, none, false⟩ =
      scanString rest ⟨cs.reverse ++ taken, none, none, false⟩ := by
  induction cs generalizing taken with
  | nil => rfl
  | cons c cs ih =>
    rw [List.flatMap_cons, symbols_append, List.append_assoc, scanString_escape, ih]
    simp

theorem scanToken_quote (s : String) (rest : List Symbol) :
    scanToken '"' (symbols (s.toList.flatMap escape ++ ['"']) ++ rest) =
      (.string (.ok s) none, rest) := by
  have body := scanString_escapes s.toList (.char '"' :: rest) []
  have start : scanToken '"' (symbols (s.toList.flatMap escape ++ ['"']) ++ rest) =
      scanString (symbols (s.toList.flatMap escape) ++ .char '"' :: rest) .empty := by
    simp [scanToken]
  rw [start, Quoted.empty, body]
  simp [scanString, Quoted.close, Quoted.settle]

end Hotplug.Json
