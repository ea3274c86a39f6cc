import Hotplug.Proofs.Json.Decoded
import Hotplug.Proofs.Json.Layout
/-!
Values that were laid out, read again: where there is room for their levels, decoders take just
their tokens and give them back. Reals come back as reals; which ones is not covered.
-/
namespace Hotplug.Json

variable {α β ρ : Type}

mutual

/-- A value with its reals set aside. -/
def Value.rough : Value → Value
  | .null => .null
  | .bool b => .bool b
  | .number n => .number n.rough
  | .string s => .string s
  | .array items => .array (roughItems items)
  | .object members => .object (roughMembers members)

def roughItems : List Value → List Value
  | [] => []
  | item :: items => item.rough :: roughItems items

def roughMembers : List (String × Value) → List (String × Value)
  | [] => []
  | (key, value) :: members => (key, value.rough) :: roughMembers members

end

theorem roughItems_congr {items found : List Value}
    (same : List.Forall₂ (fun item w => w.rough = item.rough) items found) :
    roughItems found = roughItems items := by
  induction same with
  | nil => rfl
  | cons head _ ih => rw [roughItems, roughItems, head, ih]

theorem roughMembers_congr {members found : Members}
    (same : List.Forall₂ (fun m n => n.1 = m.1 ∧ n.2.rough = m.2.rough) members found) :
    roughMembers found = roughMembers members := by
  induction same with
  | nil => rfl
  | @cons m n _ _ head _ ih =>
    obtain ⟨key, value⟩ := m
    obtain ⟨key', value'⟩ := n
    obtain ⟨rfl, value⟩ := head
    simp only at value
    rw [roughMembers, roughMembers, value, ih]

section
variable {v : Value}

theorem tokens_front (v : Value) : ∃ t more, v.tokens = t :: more ∧ ∀ b, t ≠ .closing b := by
  match v with
  | .null | .bool _ | .string _ | .array [] | .array (_ :: _) | .object [] | .object (_ :: _) =>
    refine ⟨_, _, rfl, ?_⟩
    intro b
    simp
  | .number n =>
    obtain ⟨outcome, token⟩ := number_token n
    refine ⟨_, _, rfl, ?_⟩
    intro b
    simp [token]

theorem eq_null_of_front {rest more : List Token}
    (eq : v.tokens ++ rest = .literal (.ok .null) :: more) : v = .null ∧ rest = more := by
  match v with
  | .null => exact ⟨rfl, (List.cons.inj eq).2⟩
  | .number n =>
    obtain ⟨outcome, token⟩ := number_token n
    simp [Value.tokens, token] at eq
  | .bool _ | .string _ | .array [] | .array (_ :: _) | .object [] | .object (_ :: _) =>
    simp [Value.tokens] at eq

/-- A value that opens no bracket. -/
def Plain (v : Value) : Prop := ∀ b more, v.tokens ≠ .opening b :: more

theorem valueOf_plain (plain : Plain v) (depth : Nat) (budget : Budget) (rest : List Token) :
    valueOf depth budget (v.tokens ++ rest) = scalar (v.tokens ++ rest) := by
  obtain ⟨t, more, front, -⟩ := tokens_front v
  have closed : ∀ b, t ≠ .opening b := by
    rintro b rfl
    exact plain b more front
  rw [front, List.cons_append]
  cases depth <;> simp only [valueOf] <;> split <;> simp_all

theorem parts_of_not_plain (opened : ¬ Plain v) :
    (∃ items, v = .array items) ∨ ∃ members, v = .object members := by
  simp only [Plain, not_forall, not_not] at opened
  obtain ⟨b, more, opens⟩ := opened
  match v with
  | .array items => exact .inl ⟨items, rfl⟩
  | .object members => exact .inr ⟨members, rfl⟩
  | .number n =>
    obtain ⟨outcome, token⟩ := number_token n
    simp [Value.tokens, token] at opens
  | .null | .bool _ | .string _ => simp [Value.tokens] at opens

end

/-- The decoder reads the value at that depth, stops behind it, and what it gives is good. -/
def Reads (d : Decoder α) (v : Value) (depth : Nat) (good : α → Prop) : Prop :=
  ∀ room rest, v.tokens.length ≤ room →
    ∃ a, d ⟨depth, room⟩ (v.tokens ++ rest) = .ok (a, rest) ∧ good a

variable {d : Decoder α} {v : Value} {depth : Nat} {good : α → Prop}

theorem Reads.mono {better : α → Prop} (h : Reads d v depth good) (le : ∀ a, good a → better a) :
    Reads d v depth better := by
  intro room rest fits
  obtain ⟨a, read, is⟩ := h room rest fits
  exact ⟨a, read, le a is⟩

theorem Reads.map {f : α → β} {better : β → Prop} (h : Reads d v depth good)
    (le : ∀ a, good a → better (f a)) : Reads (d.map f) v depth better := by
  intro room rest fits
  obtain ⟨a, read, is⟩ := h room rest fits
  exact ⟨f a, bind_ok.mpr ⟨(a, rest), read, rfl⟩, le a is⟩

theorem Reads.decode (h : Reads d v greatestDepth good) {document : List Text.Symbol}
    (same : tokens document = v.tokens) : ∃ a, decode d document = .ok a ∧ good a := by
  obtain ⟨a, read, is⟩ := h v.tokens.length [] (Nat.le_refl _)
  rw [List.append_nil] at read
  refine ⟨a, ?_, is⟩
  unfold Json.decode
  rw [same]
  exact bind_ok.mpr ⟨_, read, rfl⟩

theorem reads_string (s : String) (depth : Nat) : Reads string (.string s) depth (· = s) :=
  fun _ _ _ => ⟨s, rfl, rfl⟩

theorem reads_bool (b : Bool) (depth : Nat) : Reads bool (.bool b) depth (· = b) :=
  fun _ _ _ => ⟨b, rfl, rfl⟩

theorem reads_natBelow {bound n : Nat} (small : n < bound) (fit : n < 2 ^ 64) (depth : Nat) :
    Reads (natBelow bound) (.number (.int n)) depth (· = n) := by
  intro room rest _
  have whole : (Number.int n).Fit := by
    unfold Number.Fit
    omega
  obtain ⟨m, token, rough⟩ := token_of_fit whole
  cases m with
  | real x => cases rough
  | int m =>
    obtain rfl : m = n := Number.int.inj rough
    refine ⟨n, ?_, rfl⟩
    simp [Value.tokens, token, natBelow, small]

theorem Reads.filterMap {f : α → Option β} {a : α} {b : β} (h : Reads d v depth (· = a))
    (further : f a = some b) : Reads (d.filterMap f) v depth (· = b) := by
  intro room rest fits
  obtain ⟨_, read, rfl⟩ := h room rest fits
  refine ⟨b, bind_ok.mpr ⟨(_, rest), read, ?_⟩, rfl⟩
  simp only [further]
  rfl

theorem reads_option (h : Reads d v depth good) (present : v ≠ .null) :
    Reads (option d) v depth fun found => ∃ a, found = some a ∧ good a := by
  have wrapped : Reads (d.map some) v depth fun found => ∃ a, found = some a ∧ good a :=
    h.map fun a is => ⟨a, rfl, is⟩
  intro room rest fits
  obtain ⟨found, read, is⟩ := wrapped room rest fits
  refine ⟨found, ?_, is⟩
  unfold option
  split
  · rename_i more eq
    exact absurd (eq_null_of_front eq).1 present
  · exact read

theorem inside_read {inside : Budget → Except Fault (α × List Token)} {bracket : Bracket}
    {room : Nat} {rest : List Token} {a : α}
    (read : inside ⟨depth, room⟩ = .ok (a, .closing bracket :: rest)) :
    (do
      let inner ← enter ⟨depth + 1, room⟩
      let (a, ts) ← inside inner
      let ts ← leave bracket ts
      return (a, ts)) = .ok (a, rest) := by
  have closed : leave bracket (.closing bracket :: rest) = .ok rest := by simp [leave]
  refine bind_ok.mpr ⟨⟨depth, room⟩, rfl, ?_⟩
  refine bind_ok.mpr ⟨_, read, ?_⟩
  exact bind_ok.mpr ⟨rest, closed, rfl⟩

def listTokens : List Value → List Token
  | [] => []
  | item :: items => item.tokens ++ itemTokens items

theorem array_tokens (items : List Value) :
    (Value.array items).tokens = .opening .square :: (listTokens items ++ [.closing .square]) := by
  cases items <;> simp [Value.tokens, listTokens]

section
variable {t : Token} {more : List Token}

theorem nextItem_first (notEnd : ∀ b, t ≠ .closing b) :
    nextItem true (t :: more) = .ok (some (t :: more)) := by
  unfold nextItem
  split
  · rename_i eq
    cases eq
  · rename_i eq
    exact absurd (List.cons.inj eq).1 (notEnd _)
  · rfl
  · rfl

theorem nextItem_comma (notEnd : ∀ b, t ≠ .closing b) :
    nextItem false (.comma :: t :: more) = .ok (some (t :: more)) := by
  simp only [nextItem, Bool.false_eq_true, if_false]
  split
  · rename_i eq
    cases eq
  · rename_i eq
    exact absurd (List.cons.inj eq).1 (notEnd _)
  · rfl

end

def itemsLeft (first : Bool) (items : List Value) : List Token :=
  if first then listTokens items else itemTokens items

@[simp]
theorem itemsLeft_nil (first : Bool) : itemsLeft first [] = [] := by
  cases first <;> rfl

theorem nextItem_left (first : Bool) (item : Value) (items : List Value) (rest : List Token) :
    nextItem first (itemsLeft first (item :: items) ++ rest) =
      .ok (some (item.tokens ++ (itemTokens items ++ rest))) := by
  obtain ⟨t, more, front, notEnd⟩ := tokens_front item
  cases first with
  | true => simpa [itemsLeft, listTokens, front] using nextItem_first notEnd
  | false => simpa [itemsLeft, itemTokens, front] using nextItem_comma notEnd

theorem itemTokens_length (items : List Value) :
    items.length ≤ (itemTokens items).length ∧
      ∀ item ∈ items, item.tokens.length < (itemTokens items).length := by
  induction items with
  | nil => simp [itemTokens]
  | cons item items ih =>
    simp only [itemTokens, List.length_cons, List.length_append, List.mem_cons]
    refine ⟨by omega, ?_⟩
    rintro other (rfl | later)
    · omega
    · have := ih.2 other later
      omega

theorem array_room {items : List Value} {room : Nat}
    (fits : (Value.array items).tokens.length ≤ room) :
    items.length < room + 1 ∧ ∀ item ∈ items, item.tokens.length < room := by
  have each := itemTokens_length items
  have front : (itemTokens items).length ≤ (listTokens items).length + 1 := by
    cases items <;> simp [itemTokens, listTokens]
  rw [array_tokens, List.length_cons, List.length_append, List.length_singleton] at fits
  refine ⟨by omega, fun item mem => ?_⟩
  have := each.2 item mem
  omega

section
variable {γ : Type} {f : γ → Value} {holds : γ → α → Prop} {xs : List γ}

theorem itemsOnto_reads (each : ∀ x ∈ xs, Reads d (f x) depth (holds x)) {room fuel : Nat}
    (fits : ∀ x ∈ xs, (f x).tokens.length ≤ room) (enough : xs.length < fuel) (first : Bool)
    (rest : List Token) (done : List α) :
    ∃ found, itemsOnto d ⟨depth, room⟩ fuel first
        (itemsLeft first (xs.map f) ++ .closing .square :: rest) done =
          .ok (done.reverse ++ found, .closing .square :: rest) ∧
      List.Forall₂ holds xs found := by
  induction xs generalizing fuel first done with
  | nil =>
    obtain ⟨fuel, rfl⟩ := Nat.exists_eq_add_one.mpr (Nat.zero_lt_of_lt enough)
    refine ⟨[], ?_, .nil⟩
    rw [List.map_nil, itemsLeft_nil, List.append_nil]
    exact bind_ok.mpr ⟨none, rfl, rfl⟩
  | cons x xs ih =>
    obtain ⟨fuel, rfl⟩ := Nat.exists_eq_add_one.mpr (Nat.zero_lt_of_lt enough)
    obtain ⟨a, read, is⟩ := each x (by simp) room
      (itemTokens (xs.map f) ++ .closing .square :: rest) (fits x (by simp))
    obtain ⟨found, onward, all⟩ := ih (fun y mem => each y (List.mem_cons_of_mem _ mem))
      (fun y mem => fits y (List.mem_cons_of_mem _ mem)) (Nat.lt_of_succ_lt_succ enough)
      false (a :: done)
    refine ⟨a :: found, ?_, .cons is all⟩
    apply bind_ok.mpr ⟨_, nextItem_left first (f x) (xs.map f) _, ?_⟩
    apply bind_ok.mpr ⟨_, read, ?_⟩
    simpa [itemsLeft] using onward

theorem reads_list (each : ∀ x ∈ xs, Reads d (f x) depth (holds x)) :
    Reads (list d) (.array (xs.map f)) (depth + 1) (List.Forall₂ holds xs) := by
  intro room rest fits
  obtain ⟨enough, within⟩ := array_room fits
  rw [List.length_map] at enough
  obtain ⟨found, read, all⟩ := itemsOnto_reads each
    (fun x mem => (within (f x) (List.mem_map_of_mem mem)).le) enough true rest []
  refine ⟨found, ?_, all⟩
  rw [array_tokens, List.cons_append, List.append_assoc]
  exact inside_read read

end

def objectTokens : List (String × Value) → List Token
  | [] => []
  | (key, value) :: members =>
    .string (.ok key) none :: .colon :: (value.tokens ++ memberTokens members)

theorem object_tokens (members : List (String × Value)) :
    (Value.object members).tokens =
      .opening .curly :: (objectTokens members ++ [.closing .curly]) := by
  cases members <;> simp [Value.tokens, objectTokens]

def membersLeft (first : Bool) (members : Members) : List Token :=
  if first then objectTokens members else memberTokens members

@[simp]
theorem membersLeft_nil (first : Bool) : membersLeft first [] = [] := by
  cases first <;> rfl

theorem nextKey_left (first : Bool) (key : String) (v : Value) (members : Members)
    (rest : List Token) :
    nextKey first (membersLeft first ((key, v) :: members) ++ rest) =
      .ok (some (key, .colon :: (v.tokens ++ (memberTokens members ++ rest)))) := by
  cases first <;> simp [membersLeft, objectTokens, memberTokens, nextKey]

theorem memberTokens_length (members : Members) :
    members.length ≤ (memberTokens members).length ∧
      ∀ m ∈ members, m.2.tokens.length < (memberTokens members).length := by
  induction members with
  | nil => simp [memberTokens]
  | cons m members ih =>
    obtain ⟨key, value⟩ := m
    simp only [memberTokens, List.length_cons, List.length_append, List.mem_cons]
    refine ⟨by omega, ?_⟩
    rintro other (rfl | later)
    · dsimp only
      omega
    · have := ih.2 other later
      omega

theorem object_room {members : Members} {room : Nat}
    (fits : (Value.object members).tokens.length ≤ room) :
    members.length < room + 1 ∧ ∀ m ∈ members, m.2.tokens.length < room := by
  have each := memberTokens_length members
  have front : (memberTokens members).length ≤ (objectTokens members).length + 1 := by
    cases members <;> simp [memberTokens, objectTokens]
  rw [object_tokens, List.length_cons, List.length_append, List.length_singleton] at fits
  refine ⟨by omega, fun m mem => ?_⟩
  have := each.2 m mem
  omega

section
variable {d : Decoder Value} {members : Members} {holds : String × Value → Value → Prop}

theorem membersOnto_reads (each : ∀ m ∈ members, Reads d m.2 depth (holds m)) {room fuel : Nat}
    (fits : ∀ m ∈ members, m.2.tokens.length ≤ room) (enough : members.length < fuel)
    (distinct : Distinct members) (first : Bool) (rest : List Token) {done : Members}
    (fresh : ∀ m ∈ members, m.1 ∉ done.map (·.1)) :
    ∃ found, membersOnto d ⟨depth, room⟩ fuel first
        (membersLeft first members ++ .closing .curly :: rest) done =
          .ok (done.reverse ++ found, .closing .curly :: rest) ∧
      List.Forall₂ (fun m n => n.1 = m.1 ∧ holds m n.2) members found := by
  induction members generalizing fuel first done with
  | nil =>
    obtain ⟨fuel, rfl⟩ := Nat.exists_eq_add_one.mpr (Nat.zero_lt_of_lt enough)
    refine ⟨[], ?_, .nil⟩
    rw [membersLeft_nil, List.append_nil]
    exact bind_ok.mpr ⟨none, rfl, rfl⟩
  | cons m members ih =>
    obtain ⟨key, v⟩ := m
    obtain ⟨fuel, rfl⟩ := Nat.exists_eq_add_one.mpr (Nat.zero_lt_of_lt enough)
    obtain ⟨absent, distinct⟩ := List.nodup_cons.mp distinct
    obtain ⟨a, read, is⟩ := each (key, v) (by simp) room
      (memberTokens members ++ .closing .curly :: rest) (fits (key, v) (by simp))
    have new : placed done key a = (key, a) :: done := by
      have unseen := fresh (key, v) (by simp)
      unfold placed
      rw [if_neg]
      simpa using unseen
    have later : ∀ m ∈ members, m.1 ∉ ((key, a) :: done).map (·.1) := by
      intro m mem
      rw [List.map_cons, List.mem_cons, not_or]
      constructor
      · intro same
        exact absent (List.mem_map.mpr ⟨m, mem, same⟩)
      · exact fresh m (List.mem_cons_of_mem _ mem)
    obtain ⟨found, onward, all⟩ := ih (fun i mem => each i (List.mem_cons_of_mem _ mem))
      (fun i mem => fits i (List.mem_cons_of_mem _ mem)) (Nat.lt_of_succ_lt_succ enough)
      distinct false later
    refine ⟨(key, a) :: found, ?_, .cons ⟨rfl, is⟩ all⟩
    apply bind_ok.mpr ⟨_, nextKey_left first key v members _, ?_⟩
    apply bind_ok.mpr ⟨_, rfl, ?_⟩
    apply bind_ok.mpr ⟨_, read, ?_⟩
    simp only [List.reverse_cons, List.append_assoc, List.singleton_append] at onward
    rw [← new] at onward
    exact onward

theorem reads_membersOf (each : ∀ m ∈ members, Reads d m.2 depth (holds m))
    (distinct : Distinct members) : Reads (membersOf d) (.object members) (depth + 1)
      (List.Forall₂ (fun m n => n.1 = m.1 ∧ holds m n.2) members) := by
  intro room rest fits
  obtain ⟨enough, within⟩ := object_room fits
  obtain ⟨found, read, all⟩ := membersOnto_reads each (fun m mem => (within m mem).le) enough
    distinct true rest (by simp : ∀ m ∈ members, m.1 ∉ ([] : Members).map (·.1))
  refine ⟨found, ?_, all⟩
  rw [object_tokens, List.cons_append, List.append_assoc]
  exact inside_read read

end

theorem fit_of_sound {n : Number} (sound : (Value.number n).Sound depth) : n.Fit := by
  cases depth <;> exact sound

theorem reads_plain (plain : Plain v) (sound : v.Sound depth) :
    Reads (valueOf depth) v depth fun w => w.rough = v.rough := by
  intro room rest _
  rw [valueOf_plain plain]
  match v with
  | .null => exact ⟨.null, rfl, rfl⟩
  | .bool b => exact ⟨.bool b, rfl, rfl⟩
  | .string s => exact ⟨.string s, rfl, rfl⟩
  | .number n =>
    obtain ⟨m, token, rough⟩ := token_of_fit (fit_of_sound sound)
    refine ⟨.number m, ?_, ?_⟩
    · simp [Value.tokens, token, scalar]
    · simp only [Value.rough, rough]
  | .array items => exact absurd (array_tokens items) (plain _ _)
  | .object members => exact absurd (object_tokens members) (plain _ _)

/-- What is kept of values without parts is kept of every value, if brackets keep it. -/
theorem reads_parts (kept : Value → Value → Prop)
    (flat : ∀ v depth, Plain v → v.Sound depth → Reads (valueOf depth) v depth (kept v))
    (array : ∀ items found, List.Forall₂ kept items found → kept (.array items) (.array found))
    (object : ∀ members found, List.Forall₂ (fun m n => n.1 = m.1 ∧ kept m.2 n.2) members found →
      kept (.object members) (.object found))
    (sound : v.Sound depth) : Reads (valueOf depth) v depth (kept v) := by
  -- on the depth, since only brackets hold further values
  induction depth generalizing v with
  | zero =>
    apply flat v 0 _ sound
    by_contra opened
    rcases parts_of_not_plain opened with ⟨items, rfl⟩ | ⟨members, rfl⟩ <;> exact sound
  | succ depth ih =>
    have list (items : List Value) (sound : ∀ item ∈ items, item.Sound depth) :
        Reads ((list (valueOf depth)).map Value.array) (.array items) (depth + 1)
          (kept (.array items)) := by
      have whole := reads_list (f := id) fun item mem => ih (sound item mem)
      rw [List.map_id] at whole
      exact whole.map fun found same => array items found same
    have members (members : Members) (distinct : Distinct members)
        (sound : ∀ m ∈ members, m.2.Sound depth) :
        Reads ((membersOf (valueOf depth)).map Value.object) (.object members) (depth + 1)
          (kept (.object members)) :=
      (reads_membersOf (fun m mem => ih (sound m mem)) distinct).map (object members)
    by_cases plain : Plain v
    · exact flat v (depth + 1) plain sound
    · intro room rest fits
      rcases parts_of_not_plain plain with ⟨items, rfl⟩ | ⟨ms, rfl⟩
      · obtain ⟨w, read, is⟩ := list items sound room rest fits
        exact ⟨w, by simpa [valueOf, array_tokens] using read, is⟩
      · obtain ⟨w, read, is⟩ := members ms sound.1 sound.2 room rest fits
        exact ⟨w, by simpa [valueOf, object_tokens] using read, is⟩

theorem reads_valueOf (sound : v.Sound depth) :
    Reads (valueOf depth) v depth fun w => w.rough = v.rough := by
  apply reads_parts (fun v w => w.rough = v.rough) _ _ _ sound
  · intro v depth plain sound
    exact reads_plain plain sound
  · intro items found same
    rw [Value.rough, Value.rough, roughItems_congr same]
  · intro members found same
    rw [Value.rough, Value.rough, roughMembers_congr same]

theorem reads_value (sound : v.Sound depth) :
    Reads value v depth fun w => w.rough = v.rough :=
  reads_valueOf sound

section
variable {view : ρ → ρ} {fields : List (Field ρ)} {blank : ρ}

/-- Members of a record in the order of its fields, from a place on, where members may be left
out: how a record looks in the view before and after them. -/
inductive Fill (view : ρ → ρ) (fields : List (Field ρ)) (depth : Nat) :
    (place : Nat) → ρ → List (Option (String × Value)) → ρ → Prop where
  | done {i : Nat} {t : ρ} : fields.length ≤ i → Fill view fields depth i t [] t
  | skip {i : Nat} {t u : ρ} {f : Field ρ} {os : List (Option (String × Value))} :
    fields[i]? = some f → f.required = false → Fill view fields depth (i + 1) t os u →
      Fill view fields depth i t (none :: os) u
  | put {i : Nat} {t t' u : ρ} {f : Field ρ} {key : String} {v : Value}
    {os : List (Option (String × Value))} :
    place? fields key = some (i, f) →
      Reads f.read v depth (fun change => ∀ r, view r = t → view (change r) = t') →
      Fill view fields depth (i + 1) t' os u → Fill view fields depth i t (some (key, v) :: os) u

/-- The fields before a place have been seen, except for some that nothing requires. -/
structure Behind (fields : List (Field ρ)) (i : Nat) (seen : List Nat) : Prop where
  earlier : ∀ j ∈ seen, j < i
  met : ∀ j < i, ∀ f, fields[j]? = some f → f.required = true → j ∈ seen

variable {i : Nat} {seen : List Nat} {f : Field ρ}

theorem Behind.start : Behind fields 0 [] := by
  constructor <;> simp

theorem Behind.skip (h : Behind fields i seen) (place : fields[i]? = some f)
    (optional : f.required = false) : Behind fields (i + 1) seen := by
  constructor
  · intro j mem
    exact Nat.lt_succ_of_lt (h.earlier j mem)
  · intro j before g at_ required
    by_cases same : j = i
    · subst same
      rw [place] at at_
      obtain rfl := Option.some.inj at_
      rw [optional] at required
      cases required
    · exact h.met j (by omega) g at_ required

theorem Behind.put (h : Behind fields i seen) : Behind fields (i + 1) (i :: seen) := by
  constructor
  · intro j mem
    rcases List.mem_cons.mp mem with rfl | old
    · exact Nat.lt_succ_self j
    · exact Nat.lt_succ_of_lt (h.earlier j old)
  · intro j before g at_ required
    by_cases same : j = i
    · rw [same]
      exact List.mem_cons_self ..
    · exact List.mem_cons_of_mem _ (h.met j (by omega) g at_ required)

theorem Behind.unseen (h : Behind fields i seen) : seen.contains i = false := by
  rw [List.contains_eq_mem, decide_eq_false_iff_not]
  intro mem
  exact absurd (h.earlier i mem) (Nat.lt_irrefl i)

theorem Behind.complete (h : Behind fields i seen) (past : fields.length ≤ i) :
    complete fields seen = true := by
  unfold Json.complete
  rw [List.all_eq_true]
  rintro ⟨f, j⟩ mem
  have place : fields[j]? = some f := List.mem_zipIdx_iff_getElem?.mp mem
  obtain ⟨inside, -⟩ := List.getElem?_eq_some_iff.mp place
  cases required : f.required with
  | false => simp [required]
  | true => simp [h.met j (by omega) f place required]

theorem Fill.fieldsOnto {t u : ρ} {os : List (Option (String × Value))}
    (fill : Fill view fields depth i t os u) {room fuel : Nat}
    (fits : ∀ m ∈ os.filterMap id, m.2.tokens.length ≤ room)
    (enough : (os.filterMap id).length < fuel) (first : Bool) (rest : List Token) {r : ρ}
    (behind : Behind fields i seen) (shown : view r = t) :
    ∃ found, Json.fieldsOnto fields ⟨depth, room⟩ fuel first
        (membersLeft first (os.filterMap id) ++ .closing .curly :: rest) seen r =
          .ok (found, .closing .curly :: rest) ∧ view found = u := by
  induction fill generalizing fuel first seen r with
  | done past =>
    obtain ⟨fuel, rfl⟩ := Nat.exists_eq_add_one.mpr (Nat.zero_lt_of_lt enough)
    refine ⟨r, ?_, shown⟩
    rw [List.filterMap_nil, membersLeft_nil, List.nil_append]
    apply bind_ok.mpr ⟨none, rfl, ?_⟩
    simp only [behind.complete past, if_true]
    rfl
  | skip place optional _ ih =>
    exact ih fits enough first (behind.skip place optional) shown
  | @put i t t' u f key v os place reads _ ih =>
    obtain ⟨fuel, rfl⟩ := Nat.exists_eq_add_one.mpr (Nat.zero_lt_of_lt enough)
    have members : (some (key, v) :: os).filterMap id = (key, v) :: os.filterMap id := rfl
    rw [members] at fits enough ⊢
    obtain ⟨change, read, changes⟩ := reads room
      (memberTokens (os.filterMap id) ++ .closing .curly :: rest) (fits (key, v) (by simp))
    obtain ⟨found, onward, is⟩ := ih (fun m mem => fits m (List.mem_cons_of_mem _ mem))
      (Nat.lt_of_succ_lt_succ enough) false behind.put (changes r shown)
    refine ⟨found, ?_, is⟩
    apply bind_ok.mpr ⟨_, nextKey_left first key v _ _, ?_⟩
    simp only [place, behind.unseen, Bool.false_eq_true, if_false]
    apply bind_ok.mpr ⟨_, rfl, ?_⟩
    exact bind_ok.mpr ⟨_, read, onward⟩

theorem Fill.reads {u : ρ} {os : List (Option (String × Value))}
    (fill : Fill view fields depth 0 (view blank) os u) :
    Reads (record fields blank) (objectOf os) (depth + 1) fun r => view r = u := by
  intro room rest fits
  obtain ⟨enough, within⟩ := object_room fits
  obtain ⟨found, read, shown⟩ := fill.fieldsOnto (fun m mem => (within m mem).le) enough true rest
    .start rfl
  refine ⟨found, ?_, shown⟩
  rw [objectOf, object_tokens, List.cons_append, List.append_assoc]
  exact inside_read read

variable {d : Decoder α} {key : String} {names : List String} {t u : ρ}
  {os : List (Option (String × Value))}

theorem getElem?_of_place (place : place? fields key = some (i, f)) : fields[i]? = some f := by
  obtain ⟨⟨g, j⟩, found, eq⟩ := Option.map_eq_some_iff.mp place
  obtain ⟨rfl, rfl⟩ := Prod.mk.inj eq
  exact List.mem_zipIdx_iff_getElem?.mp (List.mem_of_find?_eq_some found)

theorem Fill.member {required : Bool} {a : α} {set : α → ρ → ρ}
    (place : place? fields key = some (i, ⟨names, required, d.map set⟩))
    (reads : Reads d v depth (· = a)) (shown : ∀ r, view (set a r) = set a (view r))
    (onward : Fill view fields depth (i + 1) (set a t) os u) :
    Fill view fields depth i t (Json.member key v :: os) u := by
  apply Fill.put place (reads.map _) onward
  rintro _ rfl r rfl
  exact shown r

theorem Fill.text {set : String → ρ → ρ}
    (place : place? fields key = some (i, ⟨names, false, string.map set⟩)) (text : String)
    (shown : ∀ r, view (set text r) = set text (view r)) (unset : set "" t = t)
    (onward : Fill view fields depth (i + 1) (set text t) os u) :
    Fill view fields depth i t (textMember key text :: os) u := by
  by_cases empty : text = ""
  · subst empty
    rw [unset] at onward
    exact .skip (getElem?_of_place place) rfl onward
  · have present : textMember key text = Json.member key (.string text) := by
      simp [textMember, empty, Json.member]
    rw [present]
    exact .member place (reads_string text depth) shown onward

theorem reads_items {f : α → Value} {items : List α}
    (each : ∀ x ∈ items, Reads d (f x) depth (· = x)) :
    Reads (list d) (.array (items.map f)) (depth + 1) (· = items) := by
  apply (reads_list each).mono
  intro found same
  have equal := same.flip
  rwa [List.forall₂_eq_eq_eq] at equal

theorem Fill.items {f : α → Value} {set : List α → ρ → ρ}
    (place : place? fields key = some (i, ⟨names, false, (list d).map set⟩))
    {items : List α} (each : ∀ x ∈ items, Reads d (f x) depth (· = x))
    (shown : ∀ r, view (set items r) = set items (view r)) (unset : set [] t = t)
    (onward : Fill view fields (depth + 1) (i + 1) (set items t) os u) :
    Fill view fields (depth + 1) i t (listMember key (items.map f) :: os) u := by
  by_cases empty : items = []
  · subst empty
    rw [unset] at onward
    exact .skip (getElem?_of_place place) rfl onward
  · have present : listMember key (items.map f) = Json.member key (.array (items.map f)) := by
      simp [listMember, empty, Json.member]
    rw [present]
    exact .member place (reads_items each) shown onward

theorem Fill.texts {set : List String → ρ → ρ}
    (place : place? fields key = some (i, ⟨names, false, (list string).map set⟩))
    (items : List String) (shown : ∀ r, view (set items r) = set items (view r))
    (unset : set [] t = t)
    (onward : Fill view fields (depth + 1) (i + 1) (set items t) os u) :
    Fill view fields (depth + 1) i t (listMember key (strings items) :: os) u :=
  .items place (fun s _ => reads_string s depth) shown unset onward

theorem Fill.optional {f : α → Value} {set : Option α → ρ → ρ}
    (place : place? fields key = some (i, ⟨names, false, (option d).map set⟩))
    {a : Option α} (reads : ∀ x ∈ a, Reads d (f x) depth (· = x)) (present : ∀ x, f x ≠ .null)
    (shown : ∀ r, view (set a r) = set a (view r)) (unset : set none t = t)
    (onward : Fill view fields depth (i + 1) (set a t) os u) :
    Fill view fields depth i t (optionalMember key (a.map f) :: os) u := by
  cases a with
  | none =>
    rw [unset] at onward
    exact .skip (getElem?_of_place place) rfl onward
  | some x =>
    have whole : Reads (option d) (f x) depth (· = some x) := by
      apply (reads_option (reads x rfl) (present x)).mono
      rintro _ ⟨y, rfl, rfl⟩
      rfl
    exact .member place whole shown onward

end

end Hotplug.Json
