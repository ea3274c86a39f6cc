import Hotplug.Proofs.Json.Skipping
/-!
Records as documents. A record is spelled as an object, where each field is under its name and
other members may say anything, or as a list of its fields' values. Decoders hear just what such
documents say. Fields with several names are not covered.
-/
namespace Hotplug.Json

open Hotplug.Text

variable {α β ρ : Type}

namespace Document

def text? : Document → Option String
  | .string pieces => textOf? pieces
  | _ => none

def items? (means : Document → Option α) : Document → Option (List α)
  | .array items => items.mapM means
  | _ => none

def orNull? (means : Document → Option α) : Document → Option (Option α)
  | .literal .null => some none
  | d => (means d).map some

end Document

/-- The decoder takes from a text what a document says that is spelled there, and nothing else. -/
structure Hears (d : Decoder α) (depth : Nat) (means : Document → Option α) : Prop where
  complete : Complete d depth fun doc a => means doc = some a
  faithful : Faithful d depth fun doc a => means doc = some a

theorem hears_string (depth : Nat) : Hears string depth Document.text? where
  complete := by
    intro doc text told room rest _
    match doc with
    | .string ps =>
      have means : textOf? ps = some text := told
      simp [Document.lexemes, Lexeme.token, heard, means, string]
  faithful := by
    intro room t text rest read
    unfold string at read
    split at read
    · rename_i front
      obtain ⟨rfl, rfl⟩ := Prod.mk.inj (Except.ok.inj read)
      obtain ⟨ps, s, begins, means, rest⟩ := begins_string front
      exact ⟨.string ps, s, begins, rest, means⟩
    · cases read

theorem mapM_iff {means : Document → Option α} {items : List Document} {found : List α} :
    items.mapM means = some found ↔ List.Forall₂ (fun doc a => means doc = some a) items found := by
  induction items generalizing found with
  | nil => simp [eq_comm]
  | cons item items ih =>
    rw [List.forall₂_cons_left_iff]
    simp only [List.mapM_cons, Option.bind_eq_bind, Option.bind_eq_some_iff, Option.pure_def,
      Option.some.injEq]
    constructor
    · rintro ⟨a, first, rest, later, rfl⟩
      exact ⟨a, rest, first, ih.mp later, rfl⟩
    · rintro ⟨a, rest, first, later, rfl⟩
      exact ⟨a, first, rest, ih.mpr later, rfl⟩

theorem lists_iff {means : Document → Option α} {doc : Document} {found : List α} :
    Document.Lists (fun doc a => means doc = some a) doc found ↔
      doc.items? means = some found := by
  constructor
  · rintro ⟨all⟩
    exact mapM_iff.mpr all
  · intro told
    match doc with
    | .array items => exact ⟨mapM_iff.mp told⟩

theorem Hears.list {d : Decoder α} {depth : Nat} {means : Document → Option α}
    (h : Hears d depth means) : Hears (Json.list d) (depth + 1) (Document.items? means) where
  complete := fun doc found told => list_complete h.complete doc found (lists_iff.mpr told)
  faithful := by
    intro room t found rest read
    obtain ⟨doc, s, begins, rest, lists⟩ := list_faithful h.faithful room t found rest read
    exact ⟨doc, s, begins, rest, lists_iff.mp lists⟩

theorem eq_null_of_lexemes {doc : Document} {rest more : List Token}
    (eq : doc.lexemes.map Lexeme.token ++ rest = .literal (.ok .null) :: more) :
    doc = .literal .null ∧ rest = more := by
  match doc with
  | .literal l =>
    cases l with
    | null => exact ⟨rfl, (List.cons.inj eq).2⟩
    | bool b => simp [Document.lexemes, Lexeme.token] at eq
  | .number n =>
    obtain ⟨outcome, token⟩ := numberToken_number n.value?
    simp [Document.lexemes, Lexeme.token, token] at eq
  | .string _ | .array [] | .array (_ :: _) | .object [] | .object (_ :: _) =>
    simp [Document.lexemes, Lexeme.token] at eq

theorem orNull_some {means : Document → Option α} {doc : Document} {a : α}
    (ne : doc ≠ .literal .null) : doc.orNull? means = some (some a) ↔ means doc = some a := by
  unfold Document.orNull?
  split
  · exact absurd rfl ne
  · simp

theorem Hears.option {d : Decoder α} {depth : Nat} {means : Document → Option α}
    (h : Hears d depth means) (unsaid : means (.literal .null) = none) :
    Hears (Json.option d) depth (Document.orNull? means) where
  complete := by
    intro doc found told room rest fits
    by_cases null : doc = .literal .null
    · subst null
      obtain rfl := Option.some.inj told
      rfl
    · obtain ⟨a, rfl⟩ : ∃ a, found = some a := by
        unfold Document.orNull? at told
        split at told
        · exact absurd rfl null
        · obtain ⟨a, -, rfl⟩ := Option.map_eq_some_iff.mp told
          exact ⟨a, rfl⟩
      have read := h.complete doc a ((orNull_some null).mp told) room rest fits
      unfold Json.option
      split
      · rename_i front
        exact absurd (eq_null_of_lexemes front).1 null
      · exact bind_ok.mpr ⟨_, read, rfl⟩
  faithful := by
    intro room t found rest read
    unfold Json.option at read
    split at read
    · rename_i front
      obtain ⟨rfl, rfl⟩ := Prod.mk.inj (Except.ok.inj read)
      obtain ⟨s, begins, rest⟩ := begins_mark (m := .literal .null) (by simp) (by simp) front
      exact ⟨.literal .null, s, begins, rest, rfl⟩
    · obtain ⟨⟨a, left⟩, got, kept⟩ := bind_ok.mp read
      obtain ⟨rfl, rfl⟩ := Prod.mk.inj (Except.ok.inj kept)
      obtain ⟨doc, s, begins, rest, told⟩ := h.faithful room t a _ got
      refine ⟨doc, s, begins, rest, (orNull_some ?_).mpr told⟩
      rintro rfl
      rw [unsaid] at told
      cases told

section
variable (fields : List (Field ρ)) (tells : List (Document → (ρ → ρ) → Prop))

/-- One member after the other, with the fields that were given before: none is given twice, and in
the end none is missing that is required. -/
inductive Walk : List (List Piece × Document) → List Nat → ρ → ρ → Prop
  | done {seen : List Nat} {r : ρ} : complete fields seen = true → Walk [] seen r r
  | passed {key : List Piece} {name : String} {d : Document}
      {members : List (List Piece × Document)} {seen : List Nat} {r u : ρ} :
    textOf? key = some name → place? fields name = none → Walk members seen r u →
    Walk ((key, d) :: members) seen r u
  | taken {key : List Piece} {name : String} {d : Document}
      {members : List (List Piece × Document)} {seen : List Nat} {r u : ρ} {i : Nat}
      {f : Field ρ} {tell : Document → (ρ → ρ) → Prop} {change : ρ → ρ} :
    textOf? key = some name → place? fields name = some (i, f) → i ∉ seen →
    tells[i]? = some tell → tell d change → Walk members (i :: seen) (change r) u →
    Walk ((key, d) :: members) seen r u

inductive Row : Nat → List Document → ρ → ρ → Prop
  | done {i : Nat} {r : ρ} : (∀ f ∈ fields.drop i, f.required = false) → Row i [] r r
  | taken {i : Nat} {d : Document} {items : List Document} {r u : ρ}
      {tell : Document → (ρ → ρ) → Prop} {change : ρ → ρ} :
    i < fields.length → tells[i]? = some tell → tell d change → Row (i + 1) items (change r) u →
    Row i (d :: items) r u

/-- A document that is read as a record. -/
inductive Recorded (blank : ρ) : Document → ρ → Prop
  | object {members : List (List Piece × Document)} {r : ρ} :
    Walk fields tells members [] blank r → Recorded blank (.object members) r
  | array {items : List Document} {r : ρ} :
    Row fields tells 0 items blank r → Recorded blank (.array items) r

end

section
variable {fields : List (Field ρ)} {tells : List (Document → (ρ → ρ) → Prop)} {depth room fuel : Nat}
  {first : Bool} {seen : List Nat} {r u : ρ} {members : List (List Piece × Document)}
  {items : List Document} {i : Nat} {f : Field ρ}

theorem forall₂_getElem {γ δ : Type} {R : γ → δ → Prop} {xs : List γ} {ys : List δ} {x : γ} {y : δ}
    (all : List.Forall₂ R xs ys) (left : xs[i]? = some x) (right : ys[i]? = some y) : R x y := by
  obtain ⟨inside, rfl⟩ := List.getElem?_eq_some_iff.mp left
  obtain ⟨inside', rfl⟩ := List.getElem?_eq_some_iff.mp right
  exact all.get inside inside'

theorem Walk.fieldsOnto (walk : Walk fields tells members seen r u)
    (each : List.Forall₂ (fun f tell => Complete f.read depth tell) fields tells)
    (fits : (membersAhead first members).length ≤ room)
    (enough : (membersAhead first members).length < fuel) (rest : List Token) :
    Json.fieldsOnto fields ⟨depth, room⟩ fuel first
      ((membersAhead first members).map Lexeme.token ++ .closing .curly :: rest) seen r =
        .ok (u, .closing .curly :: rest) := by
  induction walk generalizing fuel first with
  | done met =>
    obtain ⟨fuel, rfl⟩ := Nat.exists_eq_add_one.mpr (Nat.zero_lt_of_lt enough)
    rw [membersAhead_nil]
    apply bind_ok.mpr ⟨none, rfl, ?_⟩
    simp only [met, if_true]
    rfl
  | @passed key name d members _ _ _ text place _ ih =>
    obtain ⟨fuel, rfl⟩ := Nat.exists_eq_add_one.mpr (Nat.zero_lt_of_lt enough)
    have lengths := membersAhead_length first key d members
    have fits : (membersAhead false members).length ≤ room := by omega
    have enough : (membersAhead false members).length < fuel := by omega
    have onward := ih fits enough
    apply bind_ok.mpr ⟨_, nextKey_ahead text first d members _, ?_⟩
    simp only [place]
    apply bind_ok.mpr ⟨_, rfl, ?_⟩
    exact bind_ok.mpr ⟨_, passOver_complete d _, onward⟩
  | @taken key name d members seen _ _ i f tell change text place fresh at_ told _ ih =>
    obtain ⟨fuel, rfl⟩ := Nat.exists_eq_add_one.mpr (Nat.zero_lt_of_lt enough)
    have lengths := membersAhead_length first key d members
    have fits : (membersAhead false members).length ≤ room := by omega
    have enough : (membersAhead false members).length < fuel := by omega
    have onward := ih fits enough
    have unseen : seen.contains i = false := by simpa using fresh
    have read := forall₂_getElem each (getElem?_of_place place) at_ d change told room
      ((memberLexemes members).map Lexeme.token ++ .closing .curly :: rest) (by omega)
    apply bind_ok.mpr ⟨_, nextKey_ahead text first d members _, ?_⟩
    simp only [place, unseen, Bool.false_eq_true, if_false]
    apply bind_ok.mpr ⟨_, rfl, ?_⟩
    exact bind_ok.mpr ⟨_, read, onward⟩

theorem fieldsOnto_faithful
    (each : List.Forall₂ (fun f tell => Faithful f.read depth tell) fields tells)
    {t : List Char} {rest : List Token}
    (read : Json.fieldsOnto fields ⟨depth, room⟩ fuel first (tokens (symbols t)) seen r =
      .ok (u, rest)) :
    ∃ members s, Begins (membersAhead first members) t s ∧ rest = tokens (symbols s) ∧
      Walk fields tells members seen r u := by
  induction fuel generalizing first t seen r with
  | zero => simp [Json.fieldsOnto] at read
  | succ fuel ih =>
    obtain ⟨next, stepped, read⟩ := bind_ok.mp read
    cases next with
    | none =>
      simp only at read
      split at read
      · rename_i met
        obtain ⟨rfl, rfl⟩ := Prod.mk.inj (Except.ok.inj read)
        refine ⟨[], t, ?_, rfl, .done met⟩
        rw [membersAhead_nil]
        exact .nil t
      · cases read
    | some next =>
      obtain ⟨name, next⟩ := next
      obtain ⟨loose, separated⟩ := nextKey_ok stepped
      obtain ⟨t₁, front, named⟩ := begins_comma separated
      obtain ⟨key, t₂, quoted, text, rfl⟩ := begins_string named.symm
      simp only at read
      split at read
      · rename_i place
        obtain ⟨after, colon, read⟩ := bind_ok.mp read
        obtain ⟨left, passed, read⟩ := bind_ok.mp read
        obtain ⟨t₃, parts, rfl⟩ :=
          begins_mark (m := .colon) (by simp) (by simp) (passColon_ok colon)
        obtain ⟨d, t₄, here, rfl⟩ := passOver_faithful passed
        obtain ⟨members, s, later, rest, walk⟩ := ih read
        have all := front.append (quoted.append (parts.append (here.append later)))
        refine ⟨(key, d) :: members, s, ?_, rest, .passed text place walk⟩
        cases first <;> exact all
      · rename_i i f place
        split at read
        · cases read
        · rename_i fresh
          obtain ⟨after, colon, read⟩ := bind_ok.mp read
          obtain ⟨⟨change, left⟩, got, read⟩ := bind_ok.mp read
          obtain ⟨t₃, parts, rfl⟩ :=
            begins_mark (m := .colon) (by simp) (by simp) (passColon_ok colon)
          have at_ := getElem?_of_place place
          obtain ⟨inside, -⟩ := List.getElem?_eq_some_iff.mp at_
          rw [each.length_eq] at inside
          have at' := List.getElem?_eq_getElem inside
          obtain ⟨d, t₄, here, rfl, told⟩ := forall₂_getElem each at_ at' room t₃ change left got
          obtain ⟨members, s, later, rest, walk⟩ := ih read
          have all := front.append (quoted.append (parts.append (here.append later)))
          have unseen : i ∉ seen := by simpa using fresh
          refine ⟨(key, d) :: members, s, ?_, rest, .taken text place unseen at' told walk⟩
          cases first <;> exact all

theorem Row.valuesOnto (row : Row fields tells i items r u)
    (each : List.Forall₂ (fun f tell => Complete f.read depth tell) fields tells)
    (fits : (itemsAhead first items).length ≤ room) (rest : List Token) :
    Json.valuesOnto ⟨depth, room⟩ (fields.drop i) first
      ((itemsAhead first items).map Lexeme.token ++ .closing .square :: rest) r =
        .ok (u, .closing .square :: rest) := by
  induction row generalizing first with
  | @done i r optional =>
    rw [itemsAhead_nil]
    cases left : fields.drop i with
    | nil => rfl
    | cons f fs =>
      rw [left] at optional
      have none : (f :: fs).any (·.required) = false := by
        rw [List.any_eq_false]
        intro g mem
        simp [optional g mem]
      apply bind_ok.mpr ⟨Option.none, rfl, ?_⟩
      simp only [none, Bool.false_eq_true, if_false]
      rfl
  | @taken i d items r u tell change inside at_ told _ ih =>
    have lengths := itemsAhead_length first d items
    have fits : (itemsAhead false items).length ≤ room := by omega
    have onward := ih fits
    have read := forall₂_getElem each (List.getElem?_eq_getElem inside) at_ d change told room
      ((itemLexemes items).map Lexeme.token ++ .closing .square :: rest) (by omega)
    rw [List.drop_eq_getElem_cons inside]
    apply bind_ok.mpr ⟨_, nextItem_ahead first d items _, ?_⟩
    exact bind_ok.mpr ⟨_, read, onward⟩

theorem valuesOnto_faithful
    (each : List.Forall₂ (fun f tell => Faithful f.read depth tell) fields tells)
    {t : List Char} {rest : List Token}
    (read : Json.valuesOnto ⟨depth, room⟩ (fields.drop i) first (tokens (symbols t)) r =
      .ok (u, rest)) :
    ∃ items s, Begins (itemsAhead first items) t s ∧ rest = tokens (symbols s) ∧
      Row fields tells i items r u := by
  induction left : fields.drop i generalizing i first t r with
  | nil =>
    rw [left] at read
    obtain ⟨rfl, rfl⟩ := Prod.mk.inj (Except.ok.inj read)
    refine ⟨[], t, ?_, rfl, .done (by simp [left])⟩
    rw [itemsAhead_nil]
    exact .nil t
  | cons f fs ih =>
    have inside : i < fields.length := by
      by_contra outside
      rw [List.drop_eq_nil_of_le (by omega)] at left
      cases left
    obtain ⟨rfl, later⟩ := List.cons.inj ((List.drop_eq_getElem_cons inside).symm.trans left)
    rw [left] at read
    obtain ⟨next, stepped, read⟩ := bind_ok.mp read
    cases next with
    | none =>
      simp only at read
      split at read
      · cases read
      · rename_i none
        obtain ⟨rfl, rfl⟩ := Prod.mk.inj (Except.ok.inj read)
        have optional : ∀ g ∈ fields.drop i, g.required = false := by
          rw [left]
          simpa using none
        refine ⟨[], t, ?_, rfl, .done optional⟩
        rw [itemsAhead_nil]
        exact .nil t
    | some next =>
      obtain ⟨⟨change, after⟩, got, read⟩ := bind_ok.mp read
      obtain ⟨t₁, front, rfl⟩ := begins_comma (nextItem_ok stepped)
      have inside' := inside
      rw [each.length_eq] at inside'
      have at' := List.getElem?_eq_getElem inside'
      obtain ⟨d, t₂, here, rfl, told⟩ :=
        forall₂_getElem each (List.getElem?_eq_getElem inside) at' room t₁ change after got
      rw [← later] at read
      obtain ⟨items, s, behind, rest, row⟩ := ih read later
      have all := front.append (here.append behind)
      refine ⟨d :: items, s, ?_, rest, .taken inside at' told row⟩
      cases first <;> exact all

theorem record_complete {blank : ρ}
    (each : List.Forall₂ (fun f tell => Complete f.read depth tell) fields tells) :
    Complete (record fields blank) (depth + 1) (Recorded fields tells blank) := by
  rintro _ u (@⟨members, _, walk⟩ | @⟨items, _, row⟩) room rest fits
  · rw [object_lexemes] at fits ⊢
    have inside : (membersAhead true members).length < room := by
      simp only [List.length_cons, List.length_append] at fits
      simp only [membersAhead, if_true]
      omega
    have read := walk.fieldsOnto each inside.le (Nat.lt_succ_of_lt inside) rest
    simp only [List.map_cons, List.map_append, List.cons_append, List.append_assoc]
    exact inside_read read
  · rw [array_lexemes] at fits ⊢
    have inside : (itemsAhead true items).length ≤ room := by
      simp only [List.length_cons, List.length_append] at fits
      simp only [itemsAhead, if_true]
      omega
    have read := row.valuesOnto each inside rest
    simp only [List.map_cons, List.map_append, List.cons_append, List.append_assoc]
    exact inside_read read

theorem record_faithful {blank : ρ}
    (each : List.Forall₂ (fun f tell => Faithful f.read depth tell) fields tells) :
    Faithful (record fields blank) (depth + 1) (Recorded fields tells blank) := by
  intro room t u rest read
  unfold record at read
  split at read
  · rename_i ts front
    obtain ⟨-, inside⟩ := inside_ok read
    obtain ⟨t₁, opens, rfl⟩ := begins_mark (m := .opening .curly) (by simp) (by simp) front
    obtain ⟨members, t₂, within, left, walk⟩ := fieldsOnto_faithful each inside
    obtain ⟨s, closes, rest⟩ := begins_mark (m := .closing .curly) (by simp) (by simp) left.symm
    have all := opens.append (within.append closes)
    refine ⟨.object members, s, ?_, rest, .object walk⟩
    rw [object_lexemes]
    exact all
  · rename_i ts front
    obtain ⟨-, inside⟩ := inside_ok read
    obtain ⟨t₁, opens, rfl⟩ := begins_mark (m := .opening .square) (by simp) (by simp) front
    rw [← @List.drop_zero _ fields] at inside
    obtain ⟨items, t₂, within, left, row⟩ := valuesOnto_faithful each inside
    obtain ⟨s, closes, rest⟩ := begins_mark (m := .closing .square) (by simp) (by simp) left.symm
    have all := opens.append (within.append closes)
    refine ⟨.array items, s, ?_, rest, .array row⟩
    rw [array_lexemes]
    exact all
  · cases read

end

end Hotplug.Json
