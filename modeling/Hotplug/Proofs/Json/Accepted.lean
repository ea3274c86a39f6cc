import Hotplug.Proofs.Json.Parsing
/-!
What the reader takes is written in the text: a value that it gives is what some document says that
is spelled there, with no more brackets open than there was room for. With completeness, the texts
that are taken are known, and what is taken from them.
-/
namespace Hotplug.Json

open Hotplug.Text

variable {α : Type} {t s : List Char} {ts : List Token}

theorem eq_of_token {l m : Lexeme} (number : ∀ n, m ≠ .number n) (string : ∀ ps, m ≠ .string ps)
    (same : l.token = m.token) : l = m := by
  cases m with
  | number n => exact absurd rfl (number n)
  | string ps => exact absurd rfl (string ps)
  | _ =>
    cases l with
    | number n =>
      obtain ⟨outcome, token⟩ := numberToken_number n.value?
      cases token.symm.trans same
    | _ => cases same <;> rfl

theorem begins_mark {m : Lexeme} (number : ∀ n, m ≠ .number n) (string : ∀ ps, m ≠ .string ps)
    (front : tokens (symbols t) = m.token :: ts) : ∃ s, Begins [m] t s ∧ ts = tokens (symbols s) := by
  have whole : m.token.Whole := by
    cases m with
    | number n => exact absurd rfl (number n)
    | string ps => exact absurd rfl (string ps)
    | _ => trivial
  obtain ⟨l, s, begins, same, rest⟩ := tokens_uncons front whole
  rw [eq_of_token number string same] at begins
  exact ⟨s, begins, rest⟩

theorem begins_string {text : String} {loose : Option Fault}
    (front : tokens (symbols t) = .string (.ok text) loose :: ts) :
    ∃ ps s, Begins [.string ps] t s ∧ textOf? ps = some text ∧ ts = tokens (symbols s) := by
  obtain ⟨l, s, begins, same, rest⟩ := tokens_uncons front trivial
  cases l with
  | number n =>
    obtain ⟨outcome, token⟩ := numberToken_number n.value?
    cases token.symm.trans same
  | string ps =>
    have told : heard ps = .ok text := by
      injection same
    refine ⟨ps, s, begins, ?_, rest⟩
    unfold heard at told
    split at told
    · rename_i means
      rw [means, Except.ok.inj told]
    · cases told
  | _ => cases same

theorem begins_number {number : Number} {wellFormed : Bool}
    (front : tokens (symbols t) = .number (.ok number) wellFormed :: ts) :
    ∃ n s, Begins [.number n] t s ∧ n.value? = some number ∧ ts = tokens (symbols s) := by
  obtain ⟨l, s, begins, same, rest⟩ := tokens_uncons front trivial
  cases l with
  | number n =>
    refine ⟨n, s, begins, ?_, rest⟩
    simp only [Lexeme.token, numberToken] at same
    split at same
    · rename_i value
      injection same with outcome
      rw [value, Except.ok.inj outcome]
    · cases same
  | _ => cases same

/-- What the decoder takes from a text at that depth is what some document holds that is spelled
there. -/
def Faithful (d : Decoder α) (depth : Nat) (holds : Document → α → Prop) : Prop :=
  ∀ room (t : List Char) (a : α) rest, d ⟨depth, room⟩ (tokens (symbols t)) = .ok (a, rest) →
    ∃ (doc : Document) (s : List Char), Begins doc.lexemes t s ∧ rest = tokens (symbols s) ∧
      holds doc a

theorem scalar_faithful {v : Value} {rest : List Token} (depth : Nat)
    (read : scalar (tokens (symbols t)) = .ok (v, rest)) :
    ∃ (doc : Document) (s : List Char), Begins doc.lexemes t s ∧ rest = tokens (symbols s) ∧
      Means depth doc v := by
  have literal (l : Literal) (front : tokens (symbols t) = .literal (.ok l) :: rest) :
      ∃ (doc : Document) (s : List Char), Begins doc.lexemes t s ∧ rest = tokens (symbols s) ∧
        Means depth doc l.toValue := by
    obtain ⟨s, begins, rest⟩ := begins_mark (m := .literal l) (by simp) (by simp) front
    exact ⟨.literal l, s, begins, rest, Nat.zero_le _, rfl⟩
  unfold scalar at read
  split at read
  · rename_i front
    obtain ⟨rfl, rfl⟩ := Prod.mk.inj (Except.ok.inj read)
    exact literal .null front
  · rename_i b _ front
    obtain ⟨rfl, rfl⟩ := Prod.mk.inj (Except.ok.inj read)
    exact literal (.bool b) front
  · rename_i front
    obtain ⟨rfl, rfl⟩ := Prod.mk.inj (Except.ok.inj read)
    obtain ⟨n, s, begins, value, rest⟩ := begins_number front
    exact ⟨.number n, s, begins, rest, Nat.zero_le _, by rw [Document.value?, value]; rfl⟩
  · rename_i front
    obtain ⟨rfl, rfl⟩ := Prod.mk.inj (Except.ok.inj read)
    obtain ⟨ps, s, begins, text, rest⟩ := begins_string front
    exact ⟨.string ps, s, begins, rest, Nat.zero_le _, by rw [Document.value?, text]; rfl⟩
  · cases read

section
variable {depth room fuel : Nat} {first : Bool} {rest : List Token}

def comma (first : Bool) : List Lexeme := if first then [] else [.comma]

theorem begins_comma {next : List Token} (front : tokens (symbols t) = separator first ++ next) :
    ∃ s, Begins (comma first) t s ∧ next = tokens (symbols s) := by
  cases first with
  | true => exact ⟨t, .nil t, front.symm⟩
  | false => exact begins_mark (m := .comma) (by simp) (by simp) front

section
variable {d : Decoder α} {holds : Document → α → Prop}

theorem itemsOnto_faithful (faithful : Faithful d depth holds) {done found : List α}
    (read : itemsOnto d ⟨depth, room⟩ fuel first (tokens (symbols t)) done = .ok (found, rest)) :
    ∃ items s later, Begins (itemsAhead first items) t s ∧ rest = tokens (symbols s) ∧
      List.Forall₂ holds items later ∧ found = done.reverse ++ later := by
  induction fuel generalizing first t done with
  | zero => simp [itemsOnto] at read
  | succ fuel ih =>
    obtain ⟨next, stepped, read⟩ := bind_ok.mp read
    cases next with
    | none =>
      obtain ⟨rfl, rfl⟩ := Prod.mk.inj (Except.ok.inj read)
      refine ⟨[], t, [], ?_, rfl, .nil, by simp⟩
      rw [itemsAhead_nil]
      exact .nil t
    | some next =>
      obtain ⟨⟨a, left⟩, got, read⟩ := bind_ok.mp read
      obtain ⟨u, front, rfl⟩ := begins_comma (nextItem_ok stepped)
      obtain ⟨item, w, here, rfl, held⟩ := faithful room u a left got
      obtain ⟨items, s, more, later, rfl, all, rfl⟩ := ih read
      have whole := front.append (here.append later)
      refine ⟨item :: items, s, a :: more, ?_, rfl, .cons held all, by simp⟩
      cases first <;> exact whole

theorem list_faithful (faithful : Faithful d depth holds) :
    Faithful (list d) (depth + 1) (Document.Lists holds) := by
  intro room t found rest read
  unfold list at read
  split at read
  · rename_i ts front
    obtain ⟨-, inside⟩ := inside_ok read
    obtain ⟨t₁, opens, rfl⟩ := begins_mark (m := .opening .square) (by simp) (by simp) front
    obtain ⟨items, t₂, later, within, left, all, rfl⟩ := itemsOnto_faithful faithful inside
    obtain ⟨s, closes, rest⟩ := begins_mark (m := .closing .square) (by simp) (by simp) left.symm
    have whole := opens.append (within.append closes)
    refine ⟨.array items, s, ?_, rest, ⟨all⟩⟩
    rw [array_lexemes]
    exact whole
  · cases read

end

section
variable {d : Decoder Value}

theorem membersOnto_faithful (faithful : Faithful d depth (Means depth)) {done found : Members}
    (read : membersOnto d ⟨depth, room⟩ fuel first (tokens (symbols t)) done = .ok (found, rest)) :
    ∃ members s told, Begins (membersAhead first members) t s ∧ rest = tokens (symbols s) ∧
      membersDepth members ≤ depth ∧ membersTold? members = some told ∧
      found = (collected done told).reverse := by
  induction fuel generalizing first t done with
  | zero => simp [membersOnto] at read
  | succ fuel ih =>
    obtain ⟨next, stepped, read⟩ := bind_ok.mp read
    cases next with
    | none =>
      obtain ⟨rfl, rfl⟩ := Prod.mk.inj (Except.ok.inj read)
      refine ⟨[], t, [], ?_, rfl, Nat.zero_le _, rfl, rfl⟩
      rw [membersAhead_nil]
      exact .nil t
    | some next =>
      obtain ⟨name, next⟩ := next
      obtain ⟨after, colon, read⟩ := bind_ok.mp read
      obtain ⟨⟨v, left⟩, got, read⟩ := bind_ok.mp read
      obtain ⟨loose, separated⟩ := nextKey_ok stepped
      obtain ⟨t₁, front, named⟩ := begins_comma separated
      obtain ⟨key, t₂, quoted, text, rfl⟩ := begins_string named.symm
      obtain ⟨t₃, parts, rfl⟩ :=
        begins_mark (m := .colon) (by simp) (by simp) (passColon_ok colon)
      obtain ⟨doc, t₄, here, rfl, ⟨low, value⟩⟩ := faithful room t₃ v left got
      obtain ⟨members, s, told, later, rfl, deep, means, rfl⟩ := ih read
      have all := front.append (quoted.append (parts.append (here.append later)))
      refine ⟨(key, doc) :: members, s, (name, v) :: told, ?_, rfl,
        Nat.max_le.mpr ⟨low, deep⟩, ?_, rfl⟩
      · cases first <;> exact all
      · exact membersTold_cons.mpr ⟨name, v, told, text, value, means, rfl⟩

theorem membersOf_faithful (faithful : Faithful d depth (Means depth)) {ms : Members}
    (read : membersOf d ⟨depth + 1, room⟩ (tokens (symbols t)) = .ok (ms, rest)) :
    ∃ members s told, Begins (Document.object members).lexemes t s ∧ rest = tokens (symbols s) ∧
      membersDepth members ≤ depth ∧ membersTold? members = some told ∧ ms = merged told := by
  unfold membersOf at read
  split at read
  · rename_i ts front
    obtain ⟨-, inside⟩ := inside_ok read
    obtain ⟨t₁, opens, rfl⟩ := begins_mark (m := .opening .curly) (by simp) (by simp) front
    obtain ⟨members, t₂, told, within, left, deep, means, rfl⟩ :=
      membersOnto_faithful faithful inside
    obtain ⟨s, closes, rest⟩ := begins_mark (m := .closing .curly) (by simp) (by simp) left.symm
    have all := opens.append (within.append closes)
    refine ⟨members, s, told, ?_, rest, deep, means, collected_merged told⟩
    rw [object_lexemes]
    exact all
  · cases read

theorem valueOf_faithful (depth : Nat) : Faithful (valueOf depth) depth (Means depth) := by
  induction depth with
  | zero =>
    intro room t v rest read
    unfold valueOf at read
    split at read
    · cases read
    · exact scalar_faithful 0 read
  | succ depth ih =>
    intro room t v rest read
    unfold valueOf at read
    split at read
    · obtain ⟨⟨vs, left⟩, got, kept⟩ := bind_ok.mp read
      obtain ⟨rfl, rfl⟩ := Prod.mk.inj (Except.ok.inj kept)
      obtain ⟨_, s, begins, rest, all⟩ := list_faithful ih room t vs left got
      obtain @⟨items, _, all⟩ := all
      obtain ⟨deep, told⟩ := means_items.mp all
      refine ⟨.array items, s, begins, rest, Nat.succ_le_succ deep, ?_⟩
      rw [Document.value?, told]
      rfl
    · obtain ⟨⟨ms, left⟩, got, kept⟩ := bind_ok.mp read
      obtain ⟨rfl, rfl⟩ := Prod.mk.inj (Except.ok.inj kept)
      obtain ⟨members, s, told, begins, rest, deep, means, rfl⟩ := membersOf_faithful ih got
      refine ⟨.object members, s, begins, rest, Nat.succ_le_succ deep, ?_⟩
      rw [Document.value?, means]
      rfl
    · exact scalar_faithful (depth + 1) read

theorem value_faithful (depth : Nat) : Faithful value depth (Means depth) :=
  valueOf_faithful depth

end

end

/-- From a whole text the decoder takes what a document holds that is spelled in it. -/
theorem decodeText_iff {d : Decoder α} {holds : Document → α → Prop}
    (complete : Complete d 127 holds) (faithful : Faithful d 127 holds) (text : String) (a : α) :
    decodeText d text = .ok a ↔ ∃ doc : Document, doc.Spelled text.toList ∧ holds doc a := by
  have same : Symbol.ofText text = symbols text.toList := rfl
  constructor
  · intro read
    unfold decodeText at read
    rw [same] at read
    obtain ⟨⟨found, left⟩, got, kept⟩ := bind_ok.mp read
    obtain ⟨doc, s, begins, rest, held⟩ := faithful _ text.toList found left got
    simp only at kept
    split at kept
    · obtain rfl := Except.ok.inj kept
      exact ⟨doc, ⟨s, begins, blank_of_tokens rest.symm⟩, held⟩
    · cases kept
  · rintro ⟨doc, spelled, held⟩
    have fits : doc.lexemes.length ≤ (tokens (symbols text.toList)).length := by
      rw [spelled.tokens, List.length_map]
    have read := complete doc a held _ [] fits
    rw [List.append_nil, ← spelled.tokens] at read
    unfold decodeText decode
    rw [same]
    exact bind_ok.mpr ⟨_, read, rfl⟩

inductive Document.Holds : Document → Members → Prop
  | mk {members : List (List Piece × Document)} {told : Members} :
    membersDepth members ≤ 126 → membersTold? members = some told →
    Holds (.object members) (merged told)

theorem members_complete : Complete members 127 Document.Holds := by
  rintro _ _ ⟨shallow, means⟩ room rest fits
  exact membersOf_complete (value_complete 126) shallow means fits rest

theorem members_faithful : Faithful members 127 Document.Holds := by
  intro room t ms rest read
  obtain ⟨members, s, told, begins, rest, deep, means, rfl⟩ :=
    membersOf_faithful (value_faithful 126) read
  exact ⟨.object members, s, begins, rest, ⟨deep, means⟩⟩

theorem decodeText_members (text : String) (ms : Members) :
    decodeText members text = .ok ms ↔ ∃ told, Tells text told ∧ ms = merged told := by
  rw [decodeText_iff members_complete members_faithful]
  constructor
  · rintro ⟨_, spelled, @⟨members, told, deep, means⟩⟩
    exact ⟨told, ⟨members, spelled, Nat.succ_le_succ deep, means⟩, rfl⟩
  · rintro ⟨told, ⟨members, spelled, deep, means⟩, rfl⟩
    exact ⟨_, spelled, ⟨Nat.le_of_succ_le_succ deep, means⟩⟩

end Hotplug.Json
