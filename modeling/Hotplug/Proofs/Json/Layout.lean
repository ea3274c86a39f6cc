import Hotplug.Proofs.Json.Numerals
/-!
The tokens of a document that was laid out with one member or item a line. They do not depend
on the level of the layout.
-/
namespace Hotplug.Json

open Hotplug.Text

def Number.token (n : Number) : Token :=
  match n.render with
  | [] => .other
  | c :: cs => (scanToken c (symbols cs)).1

mutual

def Value.tokens : Value → List Token
  | .null => [.literal (.ok .null)]
  | .bool b => [.literal (.ok (.bool b))]
  | .number n => [n.token]
  | .string s => [.string (.ok s) none]
  | .array [] => [.opening .square, .closing .square]
  | .array (item :: items) =>
    .opening .square :: (item.tokens ++ (itemTokens items ++ [.closing .square]))
  | .object [] => [.opening .curly, .closing .curly]
  | .object ((key, value) :: members) =>
    .opening .curly :: .string (.ok key) none :: .colon ::
      (value.tokens ++ (memberTokens members ++ [.closing .curly]))

def itemTokens : List Value → List Token
  | [] => []
  | item :: items => .comma :: (item.tokens ++ itemTokens items)

def memberTokens : List (String × Value) → List Token
  | [] => []
  | (key, value) :: members =>
    .comma :: .string (.ok key) none :: .colon :: (value.tokens ++ memberTokens members)

end

theorem tokens_stray {s rest : List Symbol} {size : Nat}
    (front : skipBlanks s = .stray size :: rest) : tokens s = .other :: tokens rest := by
  have shrinks := skipBlanks_length s
  rw [front, List.length_cons] at shrinks
  unfold tokens
  cases s with
  | nil => simp [skipBlanks] at front
  | cons symbol s =>
    rw [List.length_cons] at shrinks
    simp only [List.length_cons, tokensOnto, front]
    rw [tokensOnto_done, tokensOnto_fuel (by omega) (Nat.le_refl _)]
    rfl

theorem tokens_congr {s t : List Symbol} (same : skipBlanks s = skipBlanks t) :
    tokens s = tokens t := by
  cases front : skipBlanks s with
  | nil => exact (tokens_nil front).trans (tokens_nil (same ▸ front)).symm
  | cons symbol rest =>
    cases symbol with
    | stray size => exact (tokens_stray front).trans (tokens_stray (same ▸ front)).symm
    | char c => exact (tokens_cons front).trans (tokens_cons (same ▸ front)).symm

theorem tokens_newLine (level : Nat) (s : List Symbol) :
    tokens (symbols (newLine level) ++ s) = tokens s :=
  tokens_congr (skipBlanks_newLine level s)

theorem skipBlanks_of_not_blank {c : Char} (printed : isJsonBlank c = false)
    (rest : List Symbol) : skipBlanks (.char c :: rest) = .char c :: rest := by
  simp [skipBlanks, printed]

section
variable (rest : List Symbol)

theorem tokens_openSquare : tokens (.char '[' :: rest) = .opening .square :: tokens rest :=
  tokens_cons (skipBlanks_of_not_blank (by decide) rest)

theorem tokens_closeSquare : tokens (.char ']' :: rest) = .closing .square :: tokens rest :=
  tokens_cons (skipBlanks_of_not_blank (by decide) rest)

theorem tokens_openCurly : tokens (.char '\x7b' :: rest) = .opening .curly :: tokens rest :=
  tokens_cons (skipBlanks_of_not_blank (by decide) rest)

theorem tokens_closeCurly : tokens (.char '\x7d' :: rest) = .closing .curly :: tokens rest :=
  tokens_cons (skipBlanks_of_not_blank (by decide) rest)

theorem tokens_comma : tokens (.char ',' :: rest) = .comma :: tokens rest :=
  tokens_cons (skipBlanks_of_not_blank (by decide) rest)

theorem tokens_colon : tokens (.char ':' :: rest) = .colon :: tokens rest :=
  tokens_cons (skipBlanks_of_not_blank (by decide) rest)

theorem tokens_blank : tokens (.char ' ' :: rest) = tokens rest :=
  tokens_congr (by simp [skipBlanks, isJsonBlank])

theorem tokens_quote (s : String) :
    tokens (symbols (quote s) ++ rest) = .string (.ok s) none :: tokens rest := by
  have front : skipBlanks (symbols (quote s) ++ rest) =
      .char '"' :: (symbols (s.toList.flatMap escape ++ ['"']) ++ rest) := by
    simp [quote, skipBlanks, isJsonBlank]
  rw [tokens_cons front, scanToken_quote]

theorem tokens_null : tokens (symbols "null".toList ++ rest) =
    .literal (.ok .null) :: tokens rest := by
  have chars : "null".toList = ['n', 'u', 'l', 'l'] := by decide
  have front : skipBlanks (symbols "null".toList ++ rest) =
      .char 'n' :: (symbols ['u', 'l', 'l'] ++ rest) := by
    simp [chars, skipBlanks, isJsonBlank]
  rw [tokens_cons front]
  simp [scanToken, scanLiteral, keyword]

theorem tokens_true : tokens (symbols "true".toList ++ rest) =
    .literal (.ok (.bool true)) :: tokens rest := by
  have chars : "true".toList = ['t', 'r', 'u', 'e'] := by decide
  have front : skipBlanks (symbols "true".toList ++ rest) =
      .char 't' :: (symbols ['r', 'u', 'e'] ++ rest) := by
    simp [chars, skipBlanks, isJsonBlank]
  rw [tokens_cons front]
  simp [scanToken, scanLiteral, keyword]

theorem tokens_false : tokens (symbols "false".toList ++ rest) =
    .literal (.ok (.bool false)) :: tokens rest := by
  have chars : "false".toList = ['f', 'a', 'l', 's', 'e'] := by decide
  have front : skipBlanks (symbols "false".toList ++ rest) =
      .char 'f' :: (symbols ['a', 'l', 's', 'e'] ++ rest) := by
    simp [chars, skipBlanks, isJsonBlank]
  rw [tokens_cons front]
  simp [scanToken, scanLiteral, keyword]

end

def numberToken (value : Option Number) : Token :=
  match value with
  | some n => .number (.ok n) true
  | none => .number (.error .malformed) true

theorem scanNumber_text {p : Parts} (ok : p.Ok) (negative : Bool) {rest : List Symbol}
    (stops : Stops rest) : scanNumber negative (symbols p.text ++ rest) =
      (numberToken (Numeral.ofParts negative p).value?, rest) := by
  unfold scanNumber numberToken
  rw [Numeral.scan_text ok negative stops]
  dsimp only
  cases (Numeral.ofParts negative p).value? with
  | none => rfl
  | some n => rfl

theorem scanToken_digit {c : Char} (digit : c.isDigit = true) (rest : List Symbol) :
    scanToken c rest = scanNumber false (.char c :: rest) := by
  unfold scanToken
  split
  case h_12 => simp [digitValue_of_isDigit digit]
  all_goals simp [Char.isDigit] at digit

theorem not_blank_of_isDigit {c : Char} (digit : c.isDigit = true) : isJsonBlank c = false := by
  by_contra blank
  simp only [isJsonBlank, Bool.not_eq_false, Bool.or_eq_true, beq_iff_eq] at blank
  rcases blank with ((rfl | rfl) | rfl) | rfl <;> simp [Char.isDigit] at digit

theorem Parts.Ok.front {p : Parts} (ok : p.Ok) :
    ∃ c more, p.text = c :: more ∧ c.isDigit = true := by
  have whole := ok.whole
  unfold Parts.text
  cases digits : p.whole with
  | nil => exact absurd digits whole.nonempty
  | cons c more => exact ⟨c, _, rfl, whole.all c (by simp [digits])⟩

def Number.numeral (n : Number) : Numeral := .ofParts n.parts.1 n.parts.2

/-- A written number is one token. -/
theorem scanToken_number (n : Number) : ∃ c more, n.render = c :: more ∧
    isJsonBlank c = false ∧ ∀ rest, Stops rest →
      scanToken c (symbols more ++ rest) = (numberToken n.numeral.value?, rest) := by
  have ok := n.parts_ok
  have render := n.render_eq
  unfold Number.numeral
  generalize n.parts = parts at ok render ⊢
  obtain ⟨negative, p⟩ := parts
  cases negative with
  | true =>
    exact ⟨'-', p.text, by simpa using render, by decide,
      fun rest stops => scanNumber_text ok true stops⟩
  | false =>
    obtain ⟨c, more, front, digit⟩ := ok.front
    refine ⟨c, more, by simpa [front] using render, not_blank_of_isDigit digit, ?_⟩
    intro rest stops
    rw [scanToken_digit digit, ← List.cons_append, ← symbols_cons, ← front]
    exact scanNumber_text ok false stops

theorem Number.token_eq (n : Number) : n.token = numberToken n.numeral.value? := by
  obtain ⟨c, more, render, -, scanned⟩ := scanToken_number n
  have alone := scanned [] stops_nil
  rw [List.append_nil] at alone
  simp [Number.token, render, alone]

theorem tokens_number (n : Number) {rest : List Symbol} (stops : Stops rest) :
    tokens (symbols n.render ++ rest) = n.token :: tokens rest := by
  obtain ⟨c, more, render, printed, scanned⟩ := scanToken_number n
  rw [n.token_eq, render, symbols_cons, List.cons_append,
    tokens_cons (skipBlanks_of_not_blank printed _), scanned rest stops]

theorem number_token (n : Number) : ∃ outcome, n.token = .number outcome true := by
  rw [n.token_eq]
  cases n.numeral.value? with
  | none => exact ⟨_, rfl⟩
  | some m => exact ⟨_, rfl⟩

theorem stops_newLine (level : Nat) (rest : List Symbol) :
    Stops (symbols (newLine level) ++ rest) :=
  stops_cons (by decide) (by decide) (by decide) (by decide)

theorem stops_items {rest : List Symbol} (stops : Stops rest) (level : Nat) (items : List Value) :
    Stops (symbols (layOutItems level items) ++ rest) := by
  cases items with
  | nil => exact stops
  | cons item items => exact stops_cons (by decide) (by decide) (by decide) (by decide)

theorem stops_members {rest : List Symbol} (stops : Stops rest) (level : Nat)
    (members : List (String × Value)) : Stops (symbols (layOutMembers level members) ++ rest) := by
  cases members with
  | nil => exact stops
  | cons m members => exact stops_cons (by decide) (by decide) (by decide) (by decide)

mutual

theorem tokens_layOut (v : Value) (level : Nat) {rest : List Symbol} (stops : Stops rest) :
    tokens (symbols (v.layOut level) ++ rest) = v.tokens ++ tokens rest := by
  match v with
  | .null => simpa [Value.layOut, Value.tokens] using tokens_null rest
  | .bool true => simpa [Value.layOut, Value.tokens] using tokens_true rest
  | .bool false => simpa [Value.layOut, Value.tokens] using tokens_false rest
  | .number n =>
    simpa [Value.layOut, Value.tokens] using tokens_number n stops
  | .string s => simpa [Value.layOut, Value.tokens] using tokens_quote rest s
  | .array [] => simp [Value.layOut, Value.tokens, tokens_openSquare, tokens_closeSquare]
  | .array (item :: items) =>
    have ends := stops_newLine level (symbols [']'] ++ rest)
    have tail := tokens_layOutItems items level ends
    have head := tokens_layOut item (level + 1) (stops_items ends level items)
    simp only [Value.layOut, Value.tokens, symbols_cons, symbols_append, symbols_nil,
      List.cons_append, List.nil_append, List.append_assoc] at head tail ⊢
    rw [tokens_openSquare, tokens_newLine, head, tail, tokens_newLine, tokens_closeSquare]
  | .object [] => simp [Value.layOut, Value.tokens, tokens_openCurly, tokens_closeCurly]
  | .object ((key, value) :: members) =>
    have ends := stops_newLine level (symbols ['\x7d'] ++ rest)
    have tail := tokens_layOutMembers members level ends
    have head := tokens_layOut value (level + 1) (stops_members ends level members)
    simp only [Value.layOut, Value.tokens, symbols_cons, symbols_append, symbols_nil,
      List.cons_append, List.nil_append, List.append_assoc] at head tail ⊢
    rw [tokens_openCurly, tokens_newLine, tokens_quote, tokens_colon, tokens_blank, head, tail,
      tokens_newLine, tokens_closeCurly]

theorem tokens_layOutItems (items : List Value) (level : Nat) {rest : List Symbol}
    (stops : Stops rest) :
    tokens (symbols (layOutItems level items) ++ rest) = itemTokens items ++ tokens rest := by
  match items with
  | [] => rfl
  | item :: items =>
    have tail := tokens_layOutItems items level stops
    have head := tokens_layOut item (level + 1) (stops_items stops level items)
    simp only [layOutItems, itemTokens, symbols_cons, symbols_append, List.cons_append,
      List.append_assoc] at head tail ⊢
    rw [tokens_comma, tokens_newLine, head, tail]

theorem tokens_layOutMembers (members : List (String × Value)) (level : Nat)
    {rest : List Symbol} (stops : Stops rest) :
    tokens (symbols (layOutMembers level members) ++ rest) =
      memberTokens members ++ tokens rest := by
  match members with
  | [] => rfl
  | (key, value) :: members =>
    have tail := tokens_layOutMembers members level stops
    have head := tokens_layOut value (level + 1) (stops_members stops level members)
    simp only [layOutMembers, memberTokens, symbols_cons, symbols_append, List.cons_append,
      List.append_assoc] at head tail ⊢
    rw [tokens_comma, tokens_newLine, tokens_quote, tokens_colon, tokens_blank, head, tail]

end

end Hotplug.Json
