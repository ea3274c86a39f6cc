import Hotplug.Proofs.Json.Accepted
/-!
Which objects are refused. The tokens of a document tell how deep it nests and whether each of its
lexemes says something, so that it does not matter how else the text could be spelled.
-/
namespace Hotplug.Json

open Hotplug.Text

def levels : Nat → List Token → Nat
  | n, [] => n
  | n, .opening _ :: ts => levels (n + 1) ts
  | n, .closing _ :: ts => max n (levels (n - 1) ts)
  | n, _ :: ts => levels n ts

theorem le_levels (n : Nat) (ts : List Token) : n ≤ levels n ts := by
  fun_induction levels n ts with
  | case1 n => exact Nat.le_refl n
  | case2 n _ ts ih => omega
  | case3 n _ ts ih => omega
  | case4 n _ ts _ _ ih => exact ih

theorem levels_number (n : Nat) (value : Option Number) (ts : List Token) :
    levels n (numberToken value :: ts) = levels n ts := by
  cases value <;> rfl

mutual

theorem Document.levels_eq (d : Document) (n : Nat) (rest : List Token) :
    levels n (d.lexemes.map Lexeme.token ++ rest) = max (n + d.depth) (levels n rest) := by
  have least := le_levels n rest
  match d with
  | .literal _ | .string _ =>
    simp only [Document.lexemes, Document.depth, List.map_cons, List.map_nil, List.cons_append,
      List.nil_append, Lexeme.token, levels]
    omega
  | .number numeral =>
    simp only [Document.lexemes, Document.depth, List.map_cons, List.map_nil, List.cons_append,
      List.nil_append, Lexeme.token, levels_number]
    omega
  | .array [] =>
    simp only [Document.lexemes, Document.depth, itemsDepth, List.map_cons, List.map_nil,
      List.cons_append, List.nil_append, Lexeme.token, levels, Nat.add_sub_cancel]
  | .array (item :: items) =>
    simp only [Document.lexemes, Document.depth, itemsDepth, List.map_cons, List.map_nil,
      List.map_append, List.cons_append, List.nil_append, List.append_assoc, Lexeme.token, levels,
      item.levels_eq, levels_items items, Nat.add_sub_cancel]
    omega
  | .object [] =>
    simp only [Document.lexemes, Document.depth, membersDepth, List.map_cons, List.map_nil,
      List.cons_append, List.nil_append, Lexeme.token, levels, Nat.add_sub_cancel]
  | .object ((key, value) :: members) =>
    simp only [Document.lexemes, Document.depth, membersDepth, List.map_cons, List.map_nil,
      List.map_append, List.cons_append, List.nil_append, List.append_assoc, Lexeme.token, levels,
      value.levels_eq, levels_members members, Nat.add_sub_cancel]
    omega

theorem levels_items (items : List Document) (n : Nat) (rest : List Token) :
    levels n ((itemLexemes items).map Lexeme.token ++ rest) =
      max (n + itemsDepth items) (levels n rest) := by
  have least := le_levels n rest
  match items with
  | [] =>
    simp only [itemLexemes, itemsDepth, List.map_nil, List.nil_append]
    omega
  | item :: items =>
    simp only [itemLexemes, itemsDepth, List.map_cons, List.map_append, List.cons_append,
      List.append_assoc, Lexeme.token, levels, item.levels_eq, levels_items items]
    omega

theorem levels_members (members : List (List Piece × Document)) (n : Nat) (rest : List Token) :
    levels n ((memberLexemes members).map Lexeme.token ++ rest) =
      max (n + membersDepth members) (levels n rest) := by
  have least := le_levels n rest
  match members with
  | [] =>
    simp only [memberLexemes, membersDepth, List.map_nil, List.nil_append]
    omega
  | (key, value) :: members =>
    simp only [memberLexemes, membersDepth, List.map_cons, List.map_append, List.cons_append,
      List.append_assoc, Lexeme.token, levels, value.levels_eq, levels_members members]
    omega

end

theorem levels_lexemes (d : Document) : levels 0 (d.lexemes.map Lexeme.token) = d.depth := by
  have whole := d.levels_eq 0 []
  rw [List.append_nil] at whole
  simpa [levels] using whole

def Token.Sound : Token → Prop
  | .literal (.error _) | .number (.error _) _ | .string (.error _) _ | .other => False
  | _ => True

/-- A lexeme that says something: no numeral that is too large and no string with half a surrogate
pair. -/
def Lexeme.Sound (l : Lexeme) : Prop := l.token.Sound

section
variable (bracket : Bracket) (l : Literal) (n : Numeral) (ps : List Piece)

@[simp]
theorem opening_sound : (Lexeme.opening bracket).Sound := trivial

@[simp]
theorem closing_sound : (Lexeme.closing bracket).Sound := trivial

@[simp]
theorem comma_sound : Lexeme.comma.Sound := trivial

@[simp]
theorem colon_sound : Lexeme.colon.Sound := trivial

@[simp]
theorem literal_sound : (Lexeme.literal l).Sound := trivial

@[simp]
theorem number_sound : (Lexeme.number n).Sound ↔ n.value?.isSome := by
  show (numberToken n.value?).Sound ↔ n.value?.isSome
  cases n.value? <;> simp [numberToken, Token.Sound]

@[simp]
theorem string_sound : (Lexeme.string ps).Sound ↔ (textOf? ps).isSome := by
  show (Token.string (heard ps) none).Sound ↔ (textOf? ps).isSome
  unfold heard
  cases textOf? ps <;> simp [Token.Sound]

end

theorem itemsTold_isSome (item : Document) (items : List Document) :
    (itemsTold? (item :: items)).isSome ↔ item.value?.isSome ∧ (itemsTold? items).isSome := by
  rw [itemsTold?]
  cases item.value? <;> cases itemsTold? items <;> simp

theorem membersTold_isSome (key : List Piece) (d : Document)
    (members : List (List Piece × Document)) : (membersTold? ((key, d) :: members)).isSome ↔
      (textOf? key).isSome ∧ d.value?.isSome ∧ (membersTold? members).isSome := by
  rw [membersTold?]
  cases textOf? key <;> cases d.value? <;> cases membersTold? members <;> simp

mutual

/-- A document says something if each of its lexemes does. -/
theorem Document.sound_iff (d : Document) : (∀ l ∈ d.lexemes, l.Sound) ↔ d.value?.isSome := by
  match d with
  | .literal _ | .number _ | .string _ => simp [Document.lexemes, Document.value?]
  | .array [] => simp [Document.lexemes, Document.value?, itemsTold?]
  | .array (item :: items) =>
    simp [Document.lexemes, Document.value?, List.forall_mem_append, -List.mem_append,
      item.sound_iff, sound_items items, itemsTold_isSome]
  | .object [] => simp [Document.lexemes, Document.value?, membersTold?]
  | .object ((key, value) :: members) =>
    simp [Document.lexemes, Document.value?, List.forall_mem_append, -List.mem_append,
      value.sound_iff, sound_members members, membersTold_isSome]

theorem sound_items (items : List Document) :
    (∀ l ∈ itemLexemes items, l.Sound) ↔ (itemsTold? items).isSome := by
  match items with
  | [] => simp [itemLexemes, itemsTold?]
  | item :: items =>
    simp [itemLexemes, List.forall_mem_append, -List.mem_append, item.sound_iff,
      sound_items items, itemsTold_isSome]

theorem sound_members (members : List (List Piece × Document)) :
    (∀ l ∈ memberLexemes members, l.Sound) ↔ (membersTold? members).isSome := by
  match members with
  | [] => simp [memberLexemes, membersTold?]
  | (key, value) :: members =>
    simp [memberLexemes, List.forall_mem_append, -List.mem_append, value.sound_iff,
      sound_members members, membersTold_isSome]

end

/-- A text that is spelled as an object is taken if it is within the limits, however else it could
be spelled. -/
theorem decodeText_object {text : String} {held : List (List Piece × Document)}
    (spelled : (Document.object held).Spelled text.toList) :
    (∃ ms, decodeText members text = .ok ms) ↔
      (Document.object held).depth ≤ 127 ∧ (membersTold? held).isSome := by
  constructor
  · rintro ⟨ms, read⟩
    obtain ⟨told, ⟨others, spelled', shallow, means⟩, -⟩ := (decodeText_members text ms).mp read
    have same : (Document.object held).lexemes.map Lexeme.token =
        (Document.object others).lexemes.map Lexeme.token :=
      spelled.tokens.symm.trans spelled'.tokens
    constructor
    · rwa [← levels_lexemes, same, levels_lexemes]
    · have sound : ∀ l ∈ (Document.object others).lexemes, l.Sound := by
        rw [Document.sound_iff, Document.value?, means]
        rfl
      have all : ∀ l ∈ (Document.object held).lexemes, l.Sound := by
        intro l mem
        have token : l.token ∈ (Document.object others).lexemes.map Lexeme.token := by
          rw [← same]
          exact List.mem_map_of_mem mem
        obtain ⟨m, mem', is⟩ := List.mem_map.mp token
        unfold Lexeme.Sound
        rw [← is]
        exact sound m mem'
      rw [Document.sound_iff, Document.value?, Option.isSome_map] at all
      exact all
  · rintro ⟨shallow, means⟩
    obtain ⟨told, means⟩ := Option.isSome_iff_exists.mp means
    exact ⟨_, (decodeText_members text _).mpr ⟨told, ⟨held, spelled, shallow, means⟩, rfl⟩⟩

end Hotplug.Json
