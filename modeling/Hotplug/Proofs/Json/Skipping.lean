import Hotplug.Proofs.Json.Accepted
/-!
Values that nobody asks for. They are passed over where a document is spelled, however deep it
nests and whether or not it says something, and nowhere else.
-/
namespace Hotplug.Json

open Hotplug.Text

variable {t : List Char} {token : Token} {ts rest : List Token} {stack : List Bracket}

def passed (stack : List Bracket) (ts : List Token) : Except Fault (List Token) :=
  match stack with
  | [] => .ok ts
  | _ :: _ => passOver ts .next stack

-- its equations are many, and are worked out here once
attribute [local simp] passOver

theorem passOver_opening (b : Bracket) :
    passOver (.opening b :: ts) .value stack = passOver ts .fresh (b :: stack) := by
  rw [passOver.eq_def]

theorem passOver_closing {awaiting : Awaiting} (b : Bracket) (ended : awaiting ≠ .value) :
    passOver (.closing b :: ts) awaiting (b :: stack) = passed stack ts := by
  cases awaiting with
  | value => exact absurd rfl ended
  | fresh | next => cases stack <;> simp [passed]

theorem passOver_literal (l : Literal) :
    passOver (.literal (.ok l) :: ts) .value stack = passed stack ts := by
  cases stack <;> simp [passed]

theorem passOver_number (outcome : Except Fault Number) :
    passOver (.number outcome true :: ts) .value stack = passed stack ts := by
  cases stack <;> simp [passed]

theorem passOver_string (outcome : Except Fault String) :
    passOver (.string outcome none :: ts) .value stack = passed stack ts := by
  cases stack <;> simp [passed]

theorem passOver_first (notEnd : ∀ b, token ≠ .closing b) :
    passOver (token :: ts) .fresh (.square :: stack) =
      passOver (token :: ts) .value (.square :: stack) := by
  cases token with
  | closing b => exact absurd rfl (notEnd b)
  | _ => simp

theorem passOver_comma :
    passOver (.comma :: ts) .next (.square :: stack) = passOver ts .value (.square :: stack) := by
  simp

theorem passOver_key (outcome : Except Fault String) :
    passOver (.string outcome none :: .colon :: ts) .fresh (.curly :: stack) =
      passOver ts .value (.curly :: stack) := by
  simp

theorem passOver_nextKey (outcome : Except Fault String) :
    passOver (.comma :: .string outcome none :: .colon :: ts) .next (.curly :: stack) =
      passOver ts .value (.curly :: stack) := by
  simp

mutual

theorem Document.passedOver (d : Document) (stack : List Bracket) (rest : List Token) :
    passOver (d.lexemes.map Lexeme.token ++ rest) .value stack = passed stack rest := by
  match d with
  | .literal l => exact passOver_literal l
  | .number n =>
    obtain ⟨outcome, token⟩ := numberToken_number n.value?
    have shown : (Document.number n).lexemes.map Lexeme.token = [.number outcome true] := by
      simp [Document.lexemes, Lexeme.token, token]
    rw [shown]
    exact passOver_number outcome
  | .string ps => exact passOver_string (heard ps)
  | .array [] =>
    show passOver (.opening .square :: .closing .square :: rest) .value stack = _
    rw [passOver_opening, passOver_closing .square (by simp)]
  | .array (item :: items) =>
    have head := item.passedOver (.square :: stack)
      ((itemLexemes items).map Lexeme.token ++ .closing .square :: rest)
    obtain ⟨l, more, front, notEnd⟩ := lexemes_front item
    simp only [Document.lexemes, List.map_cons, List.map_append, List.map_nil, List.cons_append,
      List.nil_append, List.append_assoc, Lexeme.token, passOver_opening]
    rw [front] at head ⊢
    rw [List.map_cons, List.cons_append] at head ⊢
    rw [passOver_first notEnd, head]
    exact passedOver_items items stack rest
  | .object [] =>
    show passOver (.opening .curly :: .closing .curly :: rest) .value stack = _
    rw [passOver_opening, passOver_closing .curly (by simp)]
  | .object ((key, value) :: members) =>
    have head := value.passedOver (.curly :: stack)
      ((memberLexemes members).map Lexeme.token ++ .closing .curly :: rest)
    simp only [Document.lexemes, List.map_cons, List.map_append, List.map_nil, List.cons_append,
      List.nil_append, List.append_assoc, Lexeme.token, passOver_opening, passOver_key]
    rw [head]
    exact passedOver_members members stack rest

theorem passedOver_items (items : List Document) (stack : List Bracket) (rest : List Token) :
    passOver ((itemLexemes items).map Lexeme.token ++ .closing .square :: rest) .next
      (.square :: stack) = passed stack rest := by
  match items with
  | [] => exact passOver_closing .square (by simp)
  | item :: items =>
    have head := item.passedOver (.square :: stack)
      ((itemLexemes items).map Lexeme.token ++ .closing .square :: rest)
    simp only [itemLexemes, List.map_cons, List.map_append, List.cons_append, List.append_assoc,
      Lexeme.token, passOver_comma]
    rw [head]
    exact passedOver_items items stack rest

theorem passedOver_members (members : List (List Piece × Document)) (stack : List Bracket)
    (rest : List Token) :
    passOver ((memberLexemes members).map Lexeme.token ++ .closing .curly :: rest) .next
      (.curly :: stack) = passed stack rest := by
  match members with
  | [] => exact passOver_closing .curly (by simp)
  | (key, value) :: members =>
    have head := value.passedOver (.curly :: stack)
      ((memberLexemes members).map Lexeme.token ++ .closing .curly :: rest)
    simp only [memberLexemes, List.map_cons, List.map_append, List.cons_append,
      List.append_assoc, Lexeme.token, passOver_nextKey]
    rw [head]
    exact passedOver_members members stack rest

end

def Token.Flat : Token → Prop
  | .literal (.ok _) | .number _ true | .string _ none => True
  | _ => False

def ahead (first : Bool) : Awaiting := if first then .fresh else .next

theorem passOver_value_ok (read : passOver ts .value stack = .ok rest) : ∃ token more,
    ts = token :: more ∧ ((∃ b, token = .opening b ∧ passOver more .fresh (b :: stack) = .ok rest) ∨
      token.Flat ∧ passed stack more = .ok rest) := by
  cases ts with
  | nil => simp at read
  | cons token more =>
    refine ⟨token, more, rfl, ?_⟩
    cases token with
    | opening b =>
      rw [passOver_opening] at read
      exact .inl ⟨b, rfl, read⟩
    | literal outcome =>
      cases outcome with
      | error f => simp at read
      | ok l =>
        rw [passOver_literal] at read
        exact .inr ⟨trivial, read⟩
    | number outcome wellFormed =>
      cases wellFormed with
      | false => simp at read
      | true =>
        rw [passOver_number] at read
        exact .inr ⟨trivial, read⟩
    | string outcome loose =>
      cases loose with
      | some f => simp at read
      | none =>
        rw [passOver_string] at read
        exact .inr ⟨trivial, read⟩
    | closing _ | comma | colon | other => simp at read

theorem passOver_closing_ok {awaiting : Awaiting} {b inner : Bracket} (ended : awaiting ≠ .value)
    (read : passOver (.closing b :: ts) awaiting (inner :: stack) = .ok rest) :
    b = inner ∧ passed stack ts = .ok rest := by
  by_cases same : b = inner
  · subst same
    rw [passOver_closing b ended] at read
    exact ⟨rfl, read⟩
  · cases awaiting with
    | value => exact absurd rfl ended
    | fresh | next => simp [same] at read

theorem passOver_square_ok {first : Bool}
    (read : passOver ts (ahead first) (.square :: stack) = .ok rest) :
    (∃ more, ts = .closing .square :: more ∧ passed stack more = .ok rest) ∨
      ∃ next, ts = separator first ++ next ∧ passOver next .value (.square :: stack) = .ok rest := by
  have unended : ahead first ≠ .value := by cases first <;> simp [ahead]
  cases ts with
  | nil => simp at read
  | cons token more =>
    by_cases ends : ∃ b, token = .closing b
    · obtain ⟨b, rfl⟩ := ends
      obtain ⟨rfl, onward⟩ := passOver_closing_ok unended read
      exact .inl ⟨more, rfl, onward⟩
    · right
      cases first with
      | true =>
        refine ⟨token :: more, rfl, ?_⟩
        rw [← passOver_first fun b same => ends ⟨b, same⟩]
        exact read
      | false =>
        cases token with
        | closing b => exact absurd ⟨b, rfl⟩ ends
        | comma =>
          refine ⟨more, rfl, ?_⟩
          rw [← passOver_comma]
          exact read
        | _ => simp [ahead] at read

theorem key_of_fresh (unended : ∀ b, token ≠ .closing b)
    (read : passOver (token :: ts) .fresh (.curly :: stack) = .ok rest) :
    ∃ outcome next, token = .string outcome none ∧ ts = .colon :: next := by
  cases token with
  | closing b => exact absurd rfl (unended b)
  | string outcome loose =>
    cases loose with
    | some f => simp at read
    | none =>
      rcases ts with _ | ⟨_ | _ | _ | _ | _ | _ | _ | _, next⟩
      case cons.colon => exact ⟨outcome, next, rfl, rfl⟩
      all_goals simp at read
  | _ => simp at read

theorem key_of_next (read : passOver (.comma :: ts) .next (.curly :: stack) = .ok rest) :
    ∃ outcome next, ts = .string outcome none :: .colon :: next := by
  rcases ts with _ | ⟨_ | _ | _ | _ | _ | _ | ⟨outcome, loose⟩ | _, ts⟩
  case cons.string =>
    cases loose with
    | some f => rcases ts with _ | ⟨_ | _ | _ | _ | _ | _ | _ | _, next⟩ <;> simp at read
    | none =>
      rcases ts with _ | ⟨_ | _ | _ | _ | _ | _ | _ | _, next⟩
      case cons.colon => exact ⟨outcome, next, rfl⟩
      all_goals simp at read
  all_goals simp at read

theorem passOver_curly_ok {first : Bool}
    (read : passOver ts (ahead first) (.curly :: stack) = .ok rest) :
    (∃ more, ts = .closing .curly :: more ∧ passed stack more = .ok rest) ∨
      ∃ outcome next, ts = separator first ++ .string outcome none :: .colon :: next ∧
        passOver next .value (.curly :: stack) = .ok rest := by
  have unended : ahead first ≠ .value := by cases first <;> simp [ahead]
  cases ts with
  | nil => simp at read
  | cons token more =>
    by_cases ends : ∃ b, token = .closing b
    · obtain ⟨b, rfl⟩ := ends
      obtain ⟨rfl, onward⟩ := passOver_closing_ok unended read
      exact .inl ⟨more, rfl, onward⟩
    · right
      cases first with
      | true =>
        obtain ⟨outcome, next, rfl, rfl⟩ := key_of_fresh (fun b same => ends ⟨b, same⟩) read
        refine ⟨outcome, next, rfl, ?_⟩
        rw [← passOver_key outcome]
        exact read
      | false =>
        cases token with
        | closing b => exact absurd ⟨b, rfl⟩ ends
        | comma =>
          obtain ⟨outcome, next, rfl⟩ := key_of_next read
          refine ⟨outcome, next, rfl, ?_⟩
          rw [← passOver_nextKey outcome]
          exact read
        | _ => simp [ahead] at read

theorem Lexeme.document_of_flat {l : Lexeme} (flat : l.token.Flat) :
    ∃ d : Document, d.lexemes = [l] := by
  cases l with
  | literal value => exact ⟨.literal value, rfl⟩
  | number n => exact ⟨.number n, rfl⟩
  | string ps => exact ⟨.string ps, rfl⟩
  | opening _ | closing _ | comma | colon => exact flat.elim

theorem Token.Flat.whole (flat : token.Flat) : token.Whole := by
  cases token with
  | literal outcome => cases outcome <;> trivial
  | number outcome wellFormed => cases outcome <;> cases wellFormed <;> trivial
  | string outcome loose => cases outcome <;> cases loose <;> trivial
  | opening _ | closing _ | comma | colon => trivial
  | other => exact flat

theorem begins_anyString {outcome : Except Fault String}
    (front : tokens (symbols t) = .string outcome none :: ts) :
    ∃ ps s, Begins [.string ps] t s ∧ ts = tokens (symbols s) := by
  have whole : (Token.string outcome none).Whole := by cases outcome <;> trivial
  obtain ⟨l, s, begins, same, rest⟩ := tokens_uncons front whole
  cases l with
  | string ps => exact ⟨ps, s, begins, rest⟩
  | number n =>
    obtain ⟨outcome, token⟩ := numberToken_number n.value?
    cases token.symm.trans same
  | _ => cases same

/-- The text begins with the lexemes, and the passing over goes on behind them to the rest. -/
def Spells (ls : List Lexeme) (t : List Char) (stack : List Bracket) (rest : List Token) : Prop :=
  ∃ s, Begins ls t s ∧ passed stack (tokens (symbols s)) = .ok rest ∧
    (tokens (symbols s)).length < (tokens (symbols t)).length

def ValueSpelled (t : List Char) : Prop :=
  ∀ stack rest, passOver (tokens (symbols t)) .value stack = .ok rest →
    ∃ d : Document, Spells d.lexemes t stack rest

def ItemsSpelled (t : List Char) : Prop :=
  ∀ first stack rest, passOver (tokens (symbols t)) (ahead first) (.square :: stack) = .ok rest →
    ∃ items, Spells (itemsAhead first items ++ [.closing .square]) t stack rest

def MembersSpelled (t : List Char) : Prop :=
  ∀ first stack rest, passOver (tokens (symbols t)) (ahead first) (.curly :: stack) = .ok rest →
    ∃ members, Spells (membersAhead first members ++ [.closing .curly]) t stack rest

section
variable {n : Nat} (len : (tokens (symbols t)).length ≤ n)
include len

theorem valueSpelled_step
    (items : ∀ s, (tokens (symbols s)).length < n → ItemsSpelled s)
    (members : ∀ s, (tokens (symbols s)).length < n → MembersSpelled s) : ValueSpelled t := by
  intro stack rest read
  obtain ⟨token, more, front, opened | ⟨flat, onward⟩⟩ := passOver_value_ok read
  · obtain ⟨b, rfl, onward⟩ := opened
    obtain ⟨s, opens, rfl⟩ := begins_mark (m := .opening b) (by simp) (by simp) front
    rw [front, List.length_cons] at len
    cases b with
    | square =>
      obtain ⟨found, u, inside, after, shorter⟩ := items s (by omega) true stack rest onward
      refine ⟨.array found, u, ?_, after, ?_⟩
      · rw [array_lexemes]
        exact opens.append inside
      · rw [front, List.length_cons]
        omega
    | curly =>
      obtain ⟨found, u, inside, after, shorter⟩ := members s (by omega) true stack rest onward
      refine ⟨.object found, u, ?_, after, ?_⟩
      · rw [object_lexemes]
        exact opens.append inside
      · rw [front, List.length_cons]
        omega
  · obtain ⟨l, s, begins, rfl, rfl⟩ := tokens_uncons front flat.whole
    obtain ⟨d, lexemes⟩ := Lexeme.document_of_flat flat
    refine ⟨d, s, ?_, onward, ?_⟩
    · rw [lexemes]
      exact begins
    · rw [front, List.length_cons]
      omega

theorem itemsSpelled_step
    (value : ∀ s, (tokens (symbols s)).length ≤ n → ValueSpelled s)
    (items : ∀ s, (tokens (symbols s)).length < n → ItemsSpelled s) : ItemsSpelled t := by
  intro first stack rest read
  obtain ⟨more, front, onward⟩ | ⟨next, front, onward⟩ := passOver_square_ok read
  · obtain ⟨s, closes, rfl⟩ := begins_mark (m := .closing .square) (by simp) (by simp) front
    refine ⟨[], s, ?_, onward, ?_⟩
    · rw [itemsAhead_nil]
      exact closes
    · rw [front, List.length_cons]
      omega
  · obtain ⟨s, parts, rfl⟩ := begins_comma front
    rw [front, List.length_append] at len
    obtain ⟨d, u, here, after, shorter⟩ := value s (by omega) _ _ onward
    obtain ⟨found, v, later, done, shorter'⟩ := items u (by omega) false stack rest after
    have all := parts.append (here.append later)
    refine ⟨d :: found, v, ?_, done, ?_⟩
    · cases first <;> simpa [itemsAhead, listLexemes, itemLexemes, comma] using all
    · rw [front, List.length_append]
      omega

theorem membersSpelled_step
    (value : ∀ s, (tokens (symbols s)).length ≤ n → ValueSpelled s)
    (members : ∀ s, (tokens (symbols s)).length < n → MembersSpelled s) : MembersSpelled t := by
  intro first stack rest read
  obtain ⟨more, front, onward⟩ | ⟨outcome, next, front, onward⟩ := passOver_curly_ok read
  · obtain ⟨s, closes, rfl⟩ := begins_mark (m := .closing .curly) (by simp) (by simp) front
    refine ⟨[], s, ?_, onward, ?_⟩
    · rw [membersAhead_nil]
      exact closes
    · rw [front, List.length_cons]
      omega
  · obtain ⟨r, parts, named⟩ := begins_comma front
    obtain ⟨key, q, quoted, colon⟩ := begins_anyString named.symm
    obtain ⟨s, marked, rfl⟩ := begins_mark (m := .colon) (by simp) (by simp) colon.symm
    rw [front, List.length_append, List.length_cons, List.length_cons] at len
    obtain ⟨d, u, here, after, shorter⟩ := value s (by omega) _ _ onward
    obtain ⟨found, v, later, done, shorter'⟩ := members u (by omega) false stack rest after
    have all := parts.append (quoted.append (marked.append (here.append later)))
    refine ⟨(key, d) :: found, v, ?_, done, ?_⟩
    · cases first <;> simpa [membersAhead, objectLexemes, memberLexemes, comma] using all
    · rw [front, List.length_append, List.length_cons, List.length_cons]
      omega

end

theorem all_spelled (t : List Char) : ValueSpelled t ∧ ItemsSpelled t ∧ MembersSpelled t := by
  -- on the tokens that are left, since the brackets that are open are no part of the document
  induction len : (tokens (symbols t)).length using Nat.strong_induction_on generalizing t with
  | h n ih =>
    have items : ∀ s, (tokens (symbols s)).length < n → ItemsSpelled s :=
      fun s less => (ih _ less s rfl).2.1
    have members : ∀ s, (tokens (symbols s)).length < n → MembersSpelled s :=
      fun s less => (ih _ less s rfl).2.2
    have value : ∀ s, (tokens (symbols s)).length ≤ n → ValueSpelled s :=
      fun s small => valueSpelled_step small items members
    exact ⟨value t len.le, itemsSpelled_step len.le value items,
      membersSpelled_step len.le value members⟩

/-- What is passed over is a document that is spelled there. -/
theorem passOver_faithful (read : passOver (tokens (symbols t)) .value [] = .ok rest) :
    ∃ (d : Document) (s : List Char), Begins d.lexemes t s ∧ rest = tokens (symbols s) := by
  obtain ⟨d, s, begins, left, -⟩ := (all_spelled t).1 [] rest read
  exact ⟨d, s, begins, (Except.ok.inj left).symm⟩

theorem passOver_complete (d : Document) (rest : List Token) :
    passOver (d.lexemes.map Lexeme.token ++ rest) .value [] = .ok rest :=
  d.passedOver [] rest

end Hotplug.Json
