import Hotplug.Proofs.Json.Layout
/-!
The tokens of a document without blanks. They are those of the layout with one member or item a
line. What a document begins with can be told from its first token.
-/
namespace Hotplug.Json

open Hotplug.Text

theorem stops_renderItems {rest : List Symbol} (stops : Stops rest) (items : List Value) :
    Stops (symbols (renderItems items) ++ rest) := by
  cases items with
  | nil => exact stops
  | cons item items => exact stops_cons (by decide) (by decide) (by decide) (by decide)

theorem stops_renderMembers {rest : List Symbol} (stops : Stops rest)
    (members : List (String × Value)) : Stops (symbols (renderMembers members) ++ rest) := by
  cases members with
  | nil => exact stops
  | cons m members => exact stops_cons (by decide) (by decide) (by decide) (by decide)

mutual

theorem tokens_render (v : Value) {rest : List Symbol} (stops : Stops rest) :
    tokens (symbols v.render ++ rest) = v.tokens ++ tokens rest := by
  match v with
  | .null => simpa [Value.render, Value.tokens] using tokens_null rest
  | .bool true => simpa [Value.render, Value.tokens] using tokens_true rest
  | .bool false => simpa [Value.render, Value.tokens] using tokens_false rest
  | .number n => simpa [Value.render, Value.tokens] using tokens_number n stops
  | .string s => simpa [Value.render, Value.tokens] using tokens_quote rest s
  | .array [] => simp [Value.render, Value.tokens, tokens_openSquare, tokens_closeSquare]
  | .array (item :: items) =>
    have ends : Stops (symbols [']'] ++ rest) :=
      stops_cons (by decide) (by decide) (by decide) (by decide)
    have tail := tokens_renderItems items ends
    have head := tokens_render item (stops_renderItems ends items)
    simp only [Value.render, Value.tokens, symbols_cons, symbols_append, symbols_nil,
      List.cons_append, List.nil_append, List.append_assoc] at head tail ⊢
    rw [tokens_openSquare, head, tail, tokens_closeSquare]
  | .object [] => simp [Value.render, Value.tokens, tokens_openCurly, tokens_closeCurly]
  | .object ((key, value) :: members) =>
    have ends : Stops (symbols ['\x7d'] ++ rest) :=
      stops_cons (by decide) (by decide) (by decide) (by decide)
    have tail := tokens_renderMembers members ends
    have head := tokens_render value (stops_renderMembers ends members)
    simp only [Value.render, Value.tokens, symbols_cons, symbols_append, symbols_nil,
      List.cons_append, List.nil_append, List.append_assoc] at head tail ⊢
    rw [tokens_openCurly, tokens_quote, tokens_colon, head, tail, tokens_closeCurly]

theorem tokens_renderItems (items : List Value) {rest : List Symbol} (stops : Stops rest) :
    tokens (symbols (renderItems items) ++ rest) = itemTokens items ++ tokens rest := by
  match items with
  | [] => rfl
  | item :: items =>
    have tail := tokens_renderItems items stops
    have head := tokens_render item (stops_renderItems stops items)
    simp only [renderItems, itemTokens, symbols_cons, symbols_append, List.cons_append,
      List.append_assoc] at head tail ⊢
    rw [tokens_comma, head, tail]

theorem tokens_renderMembers (members : List (String × Value)) {rest : List Symbol}
    (stops : Stops rest) :
    tokens (symbols (renderMembers members) ++ rest) = memberTokens members ++ tokens rest := by
  match members with
  | [] => rfl
  | (key, value) :: members =>
    have tail := tokens_renderMembers members stops
    have head := tokens_render value (stops_renderMembers stops members)
    simp only [renderMembers, memberTokens, symbols_cons, symbols_append, List.cons_append,
      List.append_assoc] at head tail ⊢
    rw [tokens_comma, tokens_quote, tokens_colon, head, tail]

end

theorem tokens_empty : tokens [] = [] := tokens_nil rfl

theorem tokens_compact (v : Value) : tokens (Symbol.ofText v.compact) = v.tokens := by
  have all := tokens_render v stops_nil
  simpa [tokens_empty, Value.compact, Symbol.ofText, symbols] using all

theorem tokens_indented (v : Value) : tokens (Symbol.ofText v.indented) = v.tokens := by
  have all := tokens_layOut v 0 stops_nil
  simpa [tokens_empty, Value.indented, Symbol.ofText, symbols] using all

theorem scanString_string (s : List Symbol) (q : Quoted) :
    ∃ outcome loose, (scanString s q).1 = .string outcome loose := by
  fun_induction scanString s q <;> simp_all [Quoted.abort]

theorem scanLiteral_literal (rest : List Char) (value : Literal) (s : List Symbol) :
    ∃ outcome, (scanLiteral rest value s).1 = .literal outcome := by
  unfold scanLiteral
  split <;> exact ⟨_, rfl⟩

theorem scanNumber_number (negative : Bool) (s : List Symbol) :
    ∃ outcome wellFormed, (scanNumber negative s).1 = .number outcome wellFormed := by
  unfold scanNumber
  split
  · exact ⟨_, _, rfl⟩
  · split <;> exact ⟨_, _, rfl⟩

theorem eq_of_scanToken_openSquare {c : Char} {rest : List Symbol}
    (opens : (scanToken c rest).1 = .opening .square) : c = '[' := by
  have text (s : List Symbol) (q : Quoted) : (scanString s q).1 ≠ .opening .square := by
    obtain ⟨outcome, loose, token⟩ := scanString_string s q
    simp [token]
  have word (rest : List Char) (value : Literal) (s : List Symbol) :
      (scanLiteral rest value s).1 ≠ .opening .square := by
    obtain ⟨outcome, token⟩ := scanLiteral_literal rest value s
    simp [token]
  have numeral (negative : Bool) (s : List Symbol) :
      (scanNumber negative s).1 ≠ .opening .square := by
    obtain ⟨outcome, wellFormed, token⟩ := scanNumber_number negative s
    simp [token]
  unfold scanToken at opens
  split at opens
  case h_1 => rfl
  case h_12 =>
    split at opens
    · exact absurd opens (numeral _ _)
    · cases opens
  all_goals first
    | cases opens
    | exact absurd opens (text _ _)
    | exact absurd opens (word _ _ _)
    | exact absurd opens (numeral _ _)

theorem mem_skipBlanks {s : List Symbol} {symbol : Symbol} (mem : symbol ∈ skipBlanks s) :
    symbol ∈ s := by
  fun_induction skipBlanks s with
  | case1 c rest blank ih => exact List.mem_cons_of_mem _ (ih mem)
  | case2 c rest blank => exact mem
  | case3 rest other => exact mem

theorem mem_of_tokens_openSquare {s : List Symbol} {more : List Token}
    (opens : tokens s = .opening .square :: more) : Symbol.char '[' ∈ s := by
  apply mem_skipBlanks
  cases front : skipBlanks s with
  | nil =>
    rw [tokens_nil front] at opens
    cases opens
  | cons symbol rest =>
    cases symbol with
    | stray size =>
      rw [tokens_stray front] at opens
      cases opens
    | char c =>
      rw [tokens_cons front] at opens
      obtain rfl := eq_of_scanToken_openSquare (List.cons.inj opens).1
      exact List.mem_cons_self

end Hotplug.Json
