import Hotplug.Proofs.Json.Lexing
import Hotplug.Proofs.Json.Merging
import Hotplug.Proofs.Json.Reading
import Mathlib.Data.List.Chain
/-!
Documents that are spelled in a text are read. Their lexemes are read one after the other, and from
the tokens of a document with few enough brackets open the reader takes what the document says.
-/
namespace Hotplug.Json

open Hotplug.Text

variable {α : Type} {t s : List Char} {ls ms : List Lexeme} {rest : List Char}

theorem Begins.append (front : Begins ls t s) (back : Begins ms s rest) :
    Begins (ls ++ ms) t rest := by
  induction front with
  | nil s => exact back
  | cons blank spelled _ ih => exact .cons blank spelled (ih back)

theorem Begins.tight {l : Lexeme} {w : List Char} (spelled : l.Spelled w)
    (later : Begins ls s rest) : Begins (l :: ls) (w ++ s) rest :=
  .cons (by simp [Blank] : Blank []) spelled later

theorem Body.plain {s : List Char} (plain : ∀ c ∈ s, c ≠ '"' ∧ c ≠ '\\' ∧ 0x20 ≤ c.toNat) :
    Body (s.map .char) s := by
  induction s with
  | nil => exact .nil
  | cons c s ih =>
    obtain ⟨⟨quote, slash, printed⟩, later⟩ := List.forall_mem_cons.mp plain
    exact .cons (.plain quote slash printed) (ih later)

inductive Lexeme.Ends : Lexeme → Prop
  | comma : Ends .comma
  | closing (bracket : Bracket) : Ends (.closing bracket)

/-- A numeral is followed by what ends it. -/
def Parted (l m : Lexeme) : Prop := ∀ n, l = .number n → m.Ends

theorem stops_blank (blank : Blank s) : Stops (symbols s) := by
  cases s with
  | nil => exact stops_nil
  | cons c s =>
    have mem := blank c (List.mem_cons_self ..)
    simp only [List.mem_cons, List.not_mem_nil, or_false] at mem
    rcases mem with rfl | rfl | rfl | rfl <;>
      exact stops_cons (by decide) (by decide) (by decide) (by decide)

theorem Begins.stops {m : Lexeme} (begins : Begins (m :: ms) t rest) (ends : m.Ends) :
    Stops (symbols t) := by
  cases begins with
  | @cons _ _ blanks w s _ blank spelled later =>
    cases blanks with
    | cons c blanks =>
      have front : Stops (symbols [c]) :=
        stops_blank fun d mem => blank d (by simp_all)
      intro d more eq
      obtain ⟨rfl, -⟩ : c = d ∧ _ := by simpa using eq
      exact front c [] rfl
    | nil =>
      cases ends with
      | comma =>
        cases spelled
        exact stops_cons (by decide) (by decide) (by decide) (by decide)
      | closing bracket =>
        cases spelled
        cases bracket <;> exact stops_cons (by decide) (by decide) (by decide) (by decide)

/-- Lexemes that are written one after the other are read one after the other. -/
theorem Begins.tokens (begins : Begins ls t rest) (parted : ls.IsChain Parted)
    (stops : Stops (symbols rest)) :
    Json.tokens (symbols t) = ls.map Lexeme.token ++ Json.tokens (symbols rest) := by
  induction begins with
  | nil s => rfl
  | @cons l ls blanks w s rest blank spelled later ih =>
    obtain ⟨next, parted⟩ := List.isChain_cons.mp parted
    have ends : ∀ n, l = .number n → Stops (symbols s) := by
      intro n numeral
      cases ls with
      | nil =>
        cases later
        exact stops
      | cons m ls => exact later.stops (next m rfl n numeral)
    rw [symbols_append, symbols_append, tokens_blanks blank, spelled.tokens ends,
      ih parted stops, List.map_cons, List.cons_append]

def Follows (more : List Lexeme) : Prop := more.IsChain Parted ∧ ∀ m ∈ more.head?, m.Ends

theorem Follows.cons {l : Lexeme} {more : List Lexeme} (ends : l.Ends) (chain : more.IsChain Parted) :
    Follows (l :: more) := by
  constructor
  · apply List.isChain_cons.mpr
    refine ⟨?_, chain⟩
    rintro m - n rfl
    cases ends
  · intro m mem
    obtain rfl := Option.some.inj mem
    exact ends

theorem chain_cons {l : Lexeme} {more : List Lexeme} (mark : ∀ n, l ≠ .number n)
    (chain : more.IsChain Parted) : (l :: more).IsChain Parted :=
  List.isChain_cons.mpr ⟨fun _ _ n numeral => absurd numeral (mark n), chain⟩

mutual

theorem Document.parted (d : Document) {more : List Lexeme} (follows : Follows more) :
    (d.lexemes ++ more).IsChain Parted := by
  match d with
  | .literal _ | .string _ => exact chain_cons (by simp) follows.1
  | .number n =>
    apply List.isChain_cons.mpr
    exact ⟨fun m mem _ _ => follows.2 m mem, follows.1⟩
  | .array [] => exact chain_cons (by simp) (chain_cons (by simp) follows.1)
  | .array (item :: items) =>
    have ends : Follows (.closing .square :: more) := .cons (.closing _) follows.1
    have inside := item.parted (parted_items items ends)
    simp only [Document.lexemes, List.cons_append, List.append_assoc, List.nil_append]
    exact chain_cons (by simp) inside
  | .object [] => exact chain_cons (by simp) (chain_cons (by simp) follows.1)
  | .object ((key, value) :: members) =>
    have ends : Follows (.closing .curly :: more) := .cons (.closing _) follows.1
    have inside := value.parted (parted_members members ends)
    simp only [Document.lexemes, List.cons_append, List.append_assoc, List.nil_append]
    exact chain_cons (by simp) (chain_cons (by simp) (chain_cons (by simp) inside))

theorem parted_items (items : List Document) {more : List Lexeme} (follows : Follows more) :
    Follows (itemLexemes items ++ more) := by
  match items with
  | [] => exact follows
  | item :: items =>
    have inside := item.parted (parted_items items follows)
    rw [itemLexemes, List.cons_append, List.append_assoc]
    exact .cons .comma inside

theorem parted_members (members : List (List Piece × Document)) {more : List Lexeme}
    (follows : Follows more) : Follows (memberLexemes members ++ more) := by
  match members with
  | [] => exact follows
  | (key, value) :: members =>
    have inside := value.parted (parted_members members follows)
    simp only [memberLexemes, List.cons_append, List.append_assoc]
    exact .cons .comma (chain_cons (by simp) (chain_cons (by simp) inside))

end

theorem Document.Spelled.tokens {d : Document} (spelled : d.Spelled t) :
    Json.tokens (symbols t) = d.lexemes.map Lexeme.token := by
  obtain ⟨rest, begins, blank⟩ := spelled
  have chain : d.lexemes.IsChain Parted := by
    have alone : (d.lexemes ++ []).IsChain Parted := d.parted ⟨.nil, by simp⟩
    rwa [List.append_nil] at alone
  have none : Json.tokens (symbols rest) = [] := by
    have skipped := (tokens_blanks blank []).trans (tokens_nil rfl)
    rwa [List.append_nil] at skipped
  rw [begins.tokens chain (stops_blank blank), none, List.append_nil]

variable {items : List Document} {members : List (List Piece × Document)} {told : Members}

theorem itemsTold_cons {item : Document} {vs : List Value} :
    itemsTold? (item :: items) = some vs ↔
      ∃ v ws, item.value? = some v ∧ itemsTold? items = some ws ∧ vs = v :: ws := by
  simp only [itemsTold?, Option.bind_eq_bind, Option.bind_eq_some_iff, Option.pure_def,
    Option.some.injEq]
  constructor
  · rintro ⟨v, first, ws, later, rfl⟩
    exact ⟨v, ws, first, later, rfl⟩
  · rintro ⟨v, ws, first, later, rfl⟩
    exact ⟨v, first, ws, later, rfl⟩

theorem membersTold_cons {key : List Piece} {d : Document} :
    membersTold? ((key, d) :: members) = some told ↔
      ∃ name v others, textOf? key = some name ∧ d.value? = some v ∧
        membersTold? members = some others ∧ told = (name, v) :: others := by
  simp only [membersTold?, Option.bind_eq_bind, Option.bind_eq_some_iff, Option.pure_def,
    Option.some.injEq]
  constructor
  · rintro ⟨name, text, v, first, others, later, rfl⟩
    exact ⟨name, v, others, text, first, later, rfl⟩
  · rintro ⟨name, v, others, text, first, later, rfl⟩
    exact ⟨name, text, v, first, others, later, rfl⟩

def listLexemes : List Document → List Lexeme
  | [] => []
  | item :: items => item.lexemes ++ itemLexemes items

def objectLexemes : List (List Piece × Document) → List Lexeme
  | [] => []
  | (key, value) :: members =>
    .string key :: .colon :: (value.lexemes ++ memberLexemes members)

theorem array_lexemes (items : List Document) : (Document.array items).lexemes =
    .opening .square :: (listLexemes items ++ [.closing .square]) := by
  cases items <;> simp [Document.lexemes, listLexemes]

theorem object_lexemes (members : List (List Piece × Document)) :
    (Document.object members).lexemes =
      .opening .curly :: (objectLexemes members ++ [.closing .curly]) := by
  cases members <;> simp [Document.lexemes, objectLexemes]

def itemsAhead (first : Bool) (items : List Document) : List Lexeme :=
  if first then listLexemes items else itemLexemes items

def membersAhead (first : Bool) (members : List (List Piece × Document)) : List Lexeme :=
  if first then objectLexemes members else memberLexemes members

@[simp]
theorem itemsAhead_nil (first : Bool) : itemsAhead first [] = [] := by
  cases first <;> rfl

@[simp]
theorem membersAhead_nil (first : Bool) : membersAhead first [] = [] := by
  cases first <;> rfl

theorem itemsAhead_length (first : Bool) (item : Document) (items : List Document) :
    item.lexemes.length + (itemsAhead false items).length ≤
      (itemsAhead first (item :: items)).length := by
  cases first <;> simp [itemsAhead, listLexemes, itemLexemes]

theorem membersAhead_length (first : Bool) (key : List Piece) (d : Document)
    (members : List (List Piece × Document)) :
    d.lexemes.length + (membersAhead false members).length <
      (membersAhead first ((key, d) :: members)).length := by
  cases first <;> simp only [membersAhead, objectLexemes, memberLexemes, if_true, if_false,
    Bool.false_eq_true, List.length_cons, List.length_append]
  all_goals omega

theorem numberToken_number (value : Option Number) :
    ∃ outcome, numberToken value = .number outcome true := by
  cases value with
  | none => exact ⟨_, rfl⟩
  | some n => exact ⟨_, rfl⟩

theorem lexemes_front (d : Document) :
    ∃ l more, d.lexemes = l :: more ∧ ∀ b, l.token ≠ .closing b := by
  match d with
  | .literal _ | .string _ | .array [] | .array (_ :: _) | .object [] | .object (_ :: _) =>
    refine ⟨_, _, rfl, ?_⟩
    intro b same
    cases same
  | .number n =>
    obtain ⟨outcome, token⟩ := numberToken_number n.value?
    refine ⟨_, _, rfl, ?_⟩
    intro b same
    cases token.symm.trans same

theorem nextItem_ahead (first : Bool) (item : Document) (items : List Document)
    (rest : List Token) :
    nextItem first ((itemsAhead first (item :: items)).map Lexeme.token ++ rest) =
      .ok (some (item.lexemes.map Lexeme.token ++
        ((itemLexemes items).map Lexeme.token ++ rest))) := by
  obtain ⟨l, more, front, notEnd⟩ := lexemes_front item
  cases first with
  | true => simpa [itemsAhead, listLexemes, front] using nextItem_first notEnd
  | false => simpa [itemsAhead, itemLexemes, front, Lexeme.token] using nextItem_comma notEnd

theorem nextKey_ahead {key : List Piece} {name : String} (text : textOf? key = some name)
    (first : Bool) (d : Document) (members : List (List Piece × Document)) (rest : List Token) :
    nextKey first ((membersAhead first ((key, d) :: members)).map Lexeme.token ++ rest) =
      .ok (some (name, .colon :: (d.lexemes.map Lexeme.token ++
        ((memberLexemes members).map Lexeme.token ++ rest)))) := by
  cases first <;>
    simp [membersAhead, objectLexemes, memberLexemes, nextKey, Lexeme.token, heard, text]

/-- The decoder takes the lexemes of every document that holds something for it, and gives that. -/
def Complete (d : Decoder α) (depth : Nat) (holds : Document → α → Prop) : Prop :=
  ∀ (doc : Document) (a : α), holds doc a → ∀ room rest, doc.lexemes.length ≤ room →
    d ⟨depth, room⟩ (doc.lexemes.map Lexeme.token ++ rest) = .ok (a, rest)

inductive Document.Lists (holds : Document → α → Prop) : Document → List α → Prop
  | mk {items : List Document} {found : List α} :
    List.Forall₂ holds items found → Lists holds (.array items) found

section
variable {d : Decoder α} {depth room fuel : Nat} {first : Bool} {found : List α}
  {holds : Document → α → Prop}

theorem itemsOnto_complete (complete : Complete d depth holds)
    (all : List.Forall₂ holds items found) (fits : (itemsAhead first items).length ≤ room)
    (enough : (itemsAhead first items).length < fuel) (rest : List Token) (done : List α) :
    itemsOnto d ⟨depth, room⟩ fuel first
      ((itemsAhead first items).map Lexeme.token ++ .closing .square :: rest) done =
        .ok (done.reverse ++ found, .closing .square :: rest) := by
  induction all generalizing fuel first done with
  | nil =>
    obtain ⟨fuel, rfl⟩ := Nat.exists_eq_add_one.mpr (Nat.zero_lt_of_lt enough)
    rw [itemsAhead_nil, List.append_nil]
    exact bind_ok.mpr ⟨none, rfl, rfl⟩
  | @cons item a items found head _ ih =>
    obtain ⟨fuel, rfl⟩ := Nat.exists_eq_add_one.mpr (Nat.zero_lt_of_lt enough)
    obtain ⟨l, more, front, -⟩ := lexemes_front item
    have takes : 0 < item.lexemes.length := by
      rw [front]
      exact Nat.succ_pos _
    have lengths := itemsAhead_length first item items
    have read := complete item a head room
      ((itemLexemes items).map Lexeme.token ++ .closing .square :: rest) (by omega)
    have fits : (itemsAhead false items).length ≤ room := by omega
    have enough : (itemsAhead false items).length < fuel := by omega
    have onward := ih fits enough (a :: done)
    apply bind_ok.mpr ⟨_, nextItem_ahead first item items _, ?_⟩
    apply bind_ok.mpr ⟨_, read, ?_⟩
    simpa [itemsAhead] using onward

theorem list_complete (complete : Complete d depth holds) :
    Complete (list d) (depth + 1) (Document.Lists holds) := by
  rintro _ found @⟨items, _, all⟩ room rest fits
  rw [array_lexemes] at fits ⊢
  have inside : (itemsAhead true items).length < room := by
    simp only [List.length_cons, List.length_append] at fits
    simp only [itemsAhead, if_true]
    omega
  have read := itemsOnto_complete complete all inside.le (Nat.lt_succ_of_lt inside) rest []
  simp only [List.map_cons, List.map_append, List.cons_append, List.append_assoc]
  exact inside_read read

end

def Means (depth : Nat) (doc : Document) (v : Value) : Prop :=
  doc.depth ≤ depth ∧ doc.value? = some v

theorem means_items {depth : Nat} {vs : List Value} : List.Forall₂ (Means depth) items vs ↔
    itemsDepth items ≤ depth ∧ itemsTold? items = some vs := by
  induction items generalizing vs with
  | nil => simp [itemsDepth, itemsTold?, eq_comm]
  | cons item items ih =>
    rw [List.forall₂_cons_left_iff, itemsTold_cons, itemsDepth, Nat.max_le]
    constructor
    · rintro ⟨v, ws, ⟨low, head⟩, rest, rfl⟩
      obtain ⟨shallow, tail⟩ := ih.mp rest
      exact ⟨⟨low, shallow⟩, v, ws, head, tail, rfl⟩
    · rintro ⟨⟨low, shallow⟩, v, ws, head, tail, rfl⟩
      exact ⟨v, ws, ⟨low, head⟩, ih.mpr ⟨shallow, tail⟩, rfl⟩

section
variable {d : Decoder Value} {depth room fuel : Nat} {first : Bool}

theorem membersOnto_complete (complete : Complete d depth (Means depth))
    (shallow : membersDepth members ≤ depth)
    (means : membersTold? members = some told) (fits : (membersAhead first members).length ≤ room)
    (enough : (membersAhead first members).length < fuel) (rest : List Token) (done : Members) :
    membersOnto d ⟨depth, room⟩ fuel first
      ((membersAhead first members).map Lexeme.token ++ .closing .curly :: rest) done =
        .ok ((collected done told).reverse, .closing .curly :: rest) := by
  induction members generalizing fuel first done told with
  | nil =>
    obtain ⟨fuel, rfl⟩ := Nat.exists_eq_add_one.mpr (Nat.zero_lt_of_lt enough)
    obtain rfl := Option.some.inj means
    rw [membersAhead_nil]
    exact bind_ok.mpr ⟨none, rfl, rfl⟩
  | cons m members ih =>
    obtain ⟨key, doc⟩ := m
    obtain ⟨fuel, rfl⟩ := Nat.exists_eq_add_one.mpr (Nat.zero_lt_of_lt enough)
    obtain ⟨name, v, others, text, head, tail, rfl⟩ := membersTold_cons.mp means
    obtain ⟨here, later⟩ := Nat.max_le.mp shallow
    have lengths := membersAhead_length first key doc members
    have read := complete doc v ⟨here, head⟩ room
      ((memberLexemes members).map Lexeme.token ++ .closing .curly :: rest) (by omega)
    have fits : (membersAhead false members).length ≤ room := by omega
    have enough : (membersAhead false members).length < fuel := by omega
    have onward := ih later tail fits enough (placed done name v)
    apply bind_ok.mpr ⟨_, nextKey_ahead text first doc members _, ?_⟩
    apply bind_ok.mpr ⟨_, rfl, ?_⟩
    apply bind_ok.mpr ⟨_, read, ?_⟩
    exact onward

theorem membersOf_complete (complete : Complete d depth (Means depth))
    (shallow : membersDepth members ≤ depth) (means : membersTold? members = some told)
    (fits : (Document.object members).lexemes.length ≤ room) (rest : List Token) :
    membersOf d ⟨depth + 1, room⟩
      ((Document.object members).lexemes.map Lexeme.token ++ rest) = .ok (merged told, rest) := by
  rw [object_lexemes] at fits ⊢
  have inside : (membersAhead true members).length < room := by
    simp only [List.length_cons, List.length_append] at fits
    simp only [membersAhead, if_true]
    omega
  have read := membersOnto_complete complete shallow means inside.le (Nat.lt_succ_of_lt inside) rest []
  rw [collected_merged] at read
  simp only [List.map_cons, List.map_append, List.cons_append, List.append_assoc]
  exact inside_read read

theorem flat_complete {doc : Document} {v : Value} (flat : doc.depth = 0)
    (value : doc.value? = some v) (depth : Nat) (budget : Budget) (rest : List Token) :
    valueOf depth budget (doc.lexemes.map Lexeme.token ++ rest) = .ok (v, rest) := by
  match doc with
  | .literal l =>
    obtain rfl := Option.some.inj value
    cases depth <;> cases l <;> rfl
  | .number n =>
    obtain ⟨m, number, rfl⟩ := Option.map_eq_some_iff.mp value
    cases depth <;> simp [Document.lexemes, Lexeme.token, number, numberToken, valueOf, scalar]
  | .string ps =>
    obtain ⟨text, means, rfl⟩ := Option.map_eq_some_iff.mp value
    cases depth <;> simp [Document.lexemes, Lexeme.token, heard, means, valueOf, scalar]
  | .array items => simp [Document.depth] at flat
  | .object members => simp [Document.depth] at flat

theorem valueOf_complete (depth : Nat) : Complete (valueOf depth) depth (Means depth) := by
  -- on the depth, since only brackets hold further documents
  induction depth with
  | zero =>
    rintro doc v ⟨shallow, value⟩ room rest _
    exact flat_complete (Nat.le_zero.mp shallow) value 0 _ rest
  | succ depth ih =>
    rintro doc v ⟨shallow, value⟩ room rest fits
    match doc with
    | .literal _ | .number _ | .string _ => exact flat_complete rfl value _ _ rest
    | .array items =>
      obtain ⟨vs, told, rfl⟩ := Option.map_eq_some_iff.mp value
      have all := means_items.mpr ⟨Nat.le_of_succ_le_succ shallow, told⟩
      have read := list_complete ih _ _ ⟨all⟩ room rest fits
      rw [array_lexemes] at read ⊢
      exact bind_ok.mpr ⟨_, read, rfl⟩
    | .object members =>
      obtain ⟨told, means, rfl⟩ := Option.map_eq_some_iff.mp value
      have read := membersOf_complete ih (Nat.le_of_succ_le_succ shallow) means fits rest
      rw [object_lexemes] at read ⊢
      exact bind_ok.mpr ⟨_, read, rfl⟩

theorem value_complete (depth : Nat) : Complete value depth (Means depth) :=
  valueOf_complete depth

end

end Hotplug.Json
