import Hotplug.Json.Decode
import Hotplug.Proofs.Json.Numbers
import Mathlib.Data.List.Basic
/-!
What decoders give, whatever the document: numbers that some numeral stands for, objects that
repeat no key, and no more levels than there was room for. That a document is refused for the
right reason is not covered.
-/
namespace Hotplug.Json

open Hotplug.Text

variable {α β ρ : Type}

def Token.Fit : Token → Prop
  | .number (.ok n) _ => n.Fit
  | _ => True

/-- A value of at most `depth` levels as decoders give it. -/
def Value.Sound : (depth : Nat) → Value → Prop
  | _, .null | _, .bool _ | _, .string _ => True
  | _, .number n => n.Fit
  | 0, .array _ | 0, .object _ => False
  | depth + 1, .array items => ∀ item ∈ items, Sound depth item
  | depth + 1, .object members => (members.map (·.1)).Nodup ∧ ∀ m ∈ members, Sound depth m.2

theorem scanString_fit (s : List Symbol) (q : Quoted) : (scanString s q).1.Fit := by
  fun_induction scanString s q <;> simp_all [Quoted.abort, Token.Fit]

theorem scanLiteral_fit (rest : List Char) (value : Literal) (s : List Symbol) :
    (scanLiteral rest value s).1.Fit := by
  unfold scanLiteral
  split <;> trivial

theorem scanNumber_fit (negative : Bool) (s : List Symbol) : (scanNumber negative s).1.Fit := by
  unfold scanNumber
  split
  · trivial
  · split
    · rename_i value
      exact Numeral.fit_of_value value
    · trivial

theorem scanToken_fit (c : Char) (rest : List Symbol) : (scanToken c rest).1.Fit := by
  unfold scanToken
  split
  case h_7 => exact scanString_fit rest .empty
  case h_8 => exact scanLiteral_fit _ _ rest
  case h_9 => exact scanLiteral_fit _ _ rest
  case h_10 => exact scanLiteral_fit _ _ rest
  case h_11 => exact scanNumber_fit true rest
  case h_12 =>
    split
    · exact scanNumber_fit false _
    · trivial
  all_goals trivial

theorem tokensOnto_fit (fuel : Nat) (s : List Symbol) {done : List Token}
    (fit : ∀ t ∈ done, t.Fit) : ∀ t ∈ tokensOnto fuel s done, t.Fit := by
  induction fuel generalizing s done with
  | zero => simpa [tokensOnto] using fit
  | succ fuel ih =>
    unfold tokensOnto
    split
    · simpa using fit
    · refine ih _ ?_
      simpa [Token.Fit] using fit
    · rename_i c rest _
      refine ih _ ?_
      simpa using ⟨scanToken_fit c rest, fit⟩

theorem tokens_fit (s : List Symbol) : ∀ t ∈ tokens s, t.Fit :=
  tokensOnto_fit s.length s (by simp)

/-- A decoder that succeeds takes its tokens from the front, and what it gives is good for the
depth that there was. -/
def Gives (d : Decoder α) (good : Nat → α → Prop) : Prop :=
  ∀ budget ts a rest, d budget ts = .ok (a, rest) →
    rest ⊆ ts ∧ ((∀ t ∈ ts, t.Fit) → good budget.depth a)

variable {d : Decoder α} {good : Nat → α → Prop}

theorem Gives.map {f : α → β} {better : Nat → β → Prop} (h : Gives d good)
    (le : ∀ depth a, good depth a → better depth (f a)) : Gives (d.map f) better := by
  intro budget ts b rest read
  obtain ⟨⟨a, more⟩, found, kept⟩ := bind_ok.mp read
  obtain ⟨rfl, rfl⟩ := Prod.mk.inj (Except.ok.inj kept)
  obtain ⟨sub, is⟩ := h budget ts a more found
  exact ⟨sub, fun fit => le _ a (is fit)⟩

theorem Gives.mono {better : Nat → α → Prop} (h : Gives d good)
    (le : ∀ depth a, good depth a → better depth a) : Gives d better := by
  intro budget ts a rest read
  obtain ⟨sub, is⟩ := h budget ts a rest read
  exact ⟨sub, fun fit => le _ a (is fit)⟩

theorem gives_string : Gives string fun _ _ => True := by
  intro budget ts a rest read
  unfold string at read
  split at read
  · obtain ⟨-, rfl⟩ := Prod.mk.inj (Except.ok.inj read)
    exact ⟨List.subset_cons_self _ _, fun _ => trivial⟩
  · cases read

theorem gives_bool : Gives bool fun _ _ => True := by
  intro budget ts a rest read
  unfold bool at read
  split at read
  · obtain ⟨-, rfl⟩ := Prod.mk.inj (Except.ok.inj read)
    exact ⟨List.subset_cons_self _ _, fun _ => trivial⟩
  · cases read

theorem gives_natBelow (bound : Nat) : Gives (natBelow bound) fun _ _ => True := by
  intro budget ts a rest read
  unfold natBelow at read
  split at read
  · split at read
    · obtain ⟨-, rfl⟩ := Prod.mk.inj (Except.ok.inj read)
      exact ⟨List.subset_cons_self _ _, fun _ => trivial⟩
    · cases read
  · cases read

theorem enter_ok {budget inner : Budget} (h : enter budget = .ok inner) :
    0 < budget.depth ∧ inner = { budget with depth := budget.depth - 1 } := by
  unfold enter at h
  split at h
  · cases h
  · rename_i deep
    exact ⟨Nat.pos_of_ne_zero deep, (Except.ok.inj h).symm⟩

theorem leave_ok {bracket : Bracket} {ts rest : List Token} (h : leave bracket ts = .ok rest) :
    ts = .closing bracket :: rest := by
  unfold leave at h
  split at h
  · split at h
    · rename_i same
      rw [same, Except.ok.inj h]
    · cases h
  · cases h

def separator (first : Bool) : List Token := if first then [] else [.comma]

theorem nextItem_ok {first : Bool} {ts next : List Token}
    (h : nextItem first ts = .ok (some next)) : ts = separator first ++ next := by
  unfold nextItem at h
  split at h
  · cases h
  · cases h
  · split at h
    · rename_i head
      obtain rfl := Option.some.inj (Except.ok.inj h)
      simp [separator, head]
    · rename_i later
      split at h
      · cases h
      · cases h
      · obtain rfl := Option.some.inj (Except.ok.inj h)
        simp [separator, later]
  · split at h
    · rename_i head
      obtain rfl := Option.some.inj (Except.ok.inj h)
      simp [separator, head]
    · cases h

theorem nextItem_subset {first : Bool} {ts next : List Token}
    (h : nextItem first ts = .ok (some next)) : next ⊆ ts := by
  rw [nextItem_ok h]
  exact List.subset_append_right _ _

theorem nextKey_ok {first : Bool} {ts next : List Token} {key : String}
    (h : nextKey first ts = .ok (some (key, next))) :
    ∃ loose, ts = separator first ++ .string (.ok key) loose :: next := by
  unfold nextKey at h
  simp only at h
  repeat' split at h
  all_goals
    cases h
    try exact ⟨‹Option Fault›, by simp [separator, *]⟩

theorem nextKey_subset {first : Bool} {ts next : List Token} {key : String}
    (h : nextKey first ts = .ok (some (key, next))) : next ⊆ ts := by
  obtain ⟨loose, rfl⟩ := nextKey_ok h
  exact List.subset_append_of_subset_right _ (List.subset_cons_self _ _)

theorem passColon_ok {ts rest : List Token} (h : passColon ts = .ok rest) :
    ts = .colon :: rest := by
  unfold passColon at h
  split at h
  · rw [Except.ok.inj h]
  · cases h

theorem passColon_subset {ts rest : List Token} (h : passColon ts = .ok rest) : rest ⊆ ts := by
  rw [passColon_ok h]
  exact List.subset_cons_self _ _

theorem passScalar_ok {fault : Option Fault} {more rest : List Token} {stack : List Bracket}
    (h : (match fault, stack with
      | some f, _ => Except.error f
      | none, [] => .ok more
      | none, _ => passOver more .next stack) = .ok rest)
    (onward : passOver more .next stack = .ok rest → rest ⊆ more) : rest ⊆ more := by
  cases fault with
  | some f => cases h
  | none =>
    cases stack with
    | nil =>
      obtain rfl := Except.ok.inj h
      exact List.Subset.refl _
    | cons b stack => exact onward h

theorem passOver_ok {ts rest : List Token} {awaiting : Awaiting} {stack : List Bracket}
    (h : passOver ts awaiting stack = .ok rest) : rest ⊆ ts := by
  fun_induction passOver ts awaiting stack <;> simp_all
  case case8 more ih =>
    intro t mem
    simp [ih mem]
  case case19 more _ _ scalar _ _ _ ih =>
    exact List.subset_cons_of_subset _ (passScalar_ok h ih)
  case case21 more _ _ scalar _ _ _ _ ih =>
    exact List.subset_cons_of_subset _ (passScalar_ok h ih)
  case case22 more _ _ scalar _ _ _ _ ih =>
    exact List.subset_cons_of_subset _ (passScalar_ok h ih)

/-- What is read between brackets, one level further down. -/
theorem inside_ok {budget : Budget} {bracket : Bracket} {rest : List Token} {a : α}
    {inside : Budget → Except Fault (α × List Token)}
    (read : (do
      let inner ← enter budget
      let (a, ts) ← inside inner
      let ts ← leave bracket ts
      return (a, ts)) = .ok (a, rest)) :
    0 < budget.depth ∧
      inside { budget with depth := budget.depth - 1 } = .ok (a, .closing bracket :: rest) := by
  obtain ⟨inner, entered, read⟩ := bind_ok.mp read
  obtain ⟨⟨b, left⟩, got, read⟩ := bind_ok.mp read
  obtain ⟨after, closed, kept⟩ := bind_ok.mp read
  obtain ⟨rfl, rfl⟩ := Prod.mk.inj (Except.ok.inj kept)
  obtain ⟨deep, rfl⟩ := enter_ok entered
  rw [leave_ok closed] at got
  exact ⟨deep, got⟩

variable {budget : Budget} {fuel : Nat} {first : Bool} {ts rest : List Token}

theorem itemsOnto_gives (h : Gives d good) {done found : List α}
    (read : itemsOnto d budget fuel first ts done = .ok (found, rest)) :
    rest ⊆ ts ∧ ((∀ t ∈ ts, t.Fit) → (∀ a ∈ done, good budget.depth a) →
      ∀ a ∈ found, good budget.depth a) := by
  induction fuel generalizing first ts done with
  | zero => simp [itemsOnto] at read
  | succ fuel ih =>
    obtain ⟨next, stepped, read⟩ := bind_ok.mp read
    cases next with
    | none =>
      obtain ⟨rfl, rfl⟩ := Prod.mk.inj (Except.ok.inj read)
      exact ⟨List.Subset.refl _, fun _ done a mem => done a (List.mem_reverse.mp mem)⟩
    | some next =>
      have front := nextItem_subset stepped
      obtain ⟨⟨a, left⟩, got, read⟩ := bind_ok.mp read
      obtain ⟨sub, is⟩ := h budget next a left got
      obtain ⟨back, all⟩ := ih read
      refine ⟨List.Subset.trans back (List.Subset.trans sub front), ?_⟩
      intro fit done
      refine all (fun t mem => fit t (front (sub mem))) ?_
      intro b mem
      rcases List.mem_cons.mp mem with rfl | old
      · exact is fun t mem => fit t (front mem)
      · exact done b old

theorem gives_list (h : Gives d good) :
    Gives (list d) fun depth items => 0 < depth ∧ ∀ a ∈ items, good (depth - 1) a := by
  intro budget ts found rest read
  unfold list at read
  split at read
  · obtain ⟨deep, inside⟩ := inside_ok read
    obtain ⟨sub, all⟩ := itemsOnto_gives h inside
    have past := List.Subset.trans (List.subset_cons_self _ _) sub
    refine ⟨List.subset_cons_of_subset _ past, fun fit => ?_⟩
    exact ⟨deep, all (fun t mem => fit t (List.mem_cons_of_mem _ mem)) (by simp)⟩
  · cases read

theorem gives_option (h : Gives d good) :
    Gives (option d) fun depth found => ∀ a ∈ found, good depth a := by
  intro budget ts found rest read
  unfold option at read
  split at read
  · obtain ⟨rfl, rfl⟩ := Prod.mk.inj (Except.ok.inj read)
    exact ⟨List.subset_cons_self _ _, fun _ => by simp⟩
  · have wrapped : Gives (d.map some) fun depth found => ∀ a ∈ found, good depth a :=
      h.map fun depth a is => by simpa using is
    exact wrapped budget ts found rest read

def Distinct (members : Members) : Prop := (members.map (·.1)).Nodup

def placed (done : Members) (key : String) (value : Value) : Members :=
  if done.any (·.1 == key) then
    done.map fun member => if member.1 == key then (key, value) else member
  else (key, value) :: done

theorem placed_distinct {done : Members} (distinct : Distinct done) (key : String)
    (value : Value) : Distinct (placed done key value) := by
  unfold placed
  split
  · have same : (done.map fun member => if member.1 == key then (key, value) else member).map
        (·.1) = done.map (·.1) := by
      rw [List.map_map]
      apply List.map_congr_left
      intro m _
      by_cases asked : m.1 = key
      · simp [asked]
      · simp [asked]
    unfold Distinct
    rwa [same]
  · rename_i fresh
    have absent : key ∉ done.map (·.1) := by simpa using fresh
    exact List.nodup_cons.mpr ⟨absent, distinct⟩

theorem mem_placed {done : Members} {key : String} {value : Value} {m : String × Value}
    (mem : m ∈ placed done key value) : m = (key, value) ∨ m ∈ done := by
  unfold placed at mem
  split at mem
  · obtain ⟨old, held, eq⟩ := List.mem_map.mp mem
    split at eq
    · exact .inl eq.symm
    · exact .inr (eq ▸ held)
  · exact List.mem_cons.mp mem

section
variable {d : Decoder Value} {good : Nat → Value → Prop}

theorem membersOnto_gives (h : Gives d good) {done found : Members}
    (read : membersOnto d budget fuel first ts done = .ok (found, rest)) :
    rest ⊆ ts ∧ ((∀ t ∈ ts, t.Fit) → Distinct done → (∀ m ∈ done, good budget.depth m.2) →
      Distinct found ∧ ∀ m ∈ found, good budget.depth m.2) := by
  induction fuel generalizing first ts done with
  | zero => simp [membersOnto] at read
  | succ fuel ih =>
    obtain ⟨next, stepped, read⟩ := bind_ok.mp read
    cases next with
    | none =>
      obtain ⟨rfl, rfl⟩ := Prod.mk.inj (Except.ok.inj read)
      refine ⟨List.Subset.refl _, fun _ distinct done => ⟨?_, ?_⟩⟩
      · simpa [Distinct, List.map_reverse] using distinct
      · exact fun m mem => done m (List.mem_reverse.mp mem)
    | some next =>
      obtain ⟨key, next⟩ := next
      have front := nextKey_subset stepped
      obtain ⟨after, colon, read⟩ := bind_ok.mp read
      have past : after ⊆ ts := List.Subset.trans (passColon_subset colon) front
      obtain ⟨⟨value, left⟩, got, read⟩ := bind_ok.mp read
      obtain ⟨sub, is⟩ := h budget after value left got
      obtain ⟨back, all⟩ := ih read
      refine ⟨List.Subset.trans back (List.Subset.trans sub past), ?_⟩
      intro fit distinct done
      have valueGood := is fun t mem => fit t (past mem)
      refine all (fun t mem => fit t (past (sub mem))) (placed_distinct distinct key value) ?_
      intro m mem
      rcases mem_placed mem with rfl | old
      · exact valueGood
      · exact done m old

theorem gives_membersOf (h : Gives d good) : Gives (membersOf d) fun depth members =>
    0 < depth ∧ Distinct members ∧ ∀ m ∈ members, good (depth - 1) m.2 := by
  intro budget ts found rest read
  unfold membersOf at read
  split at read
  · obtain ⟨deep, inside⟩ := inside_ok read
    obtain ⟨sub, all⟩ := membersOnto_gives h inside
    have past := List.Subset.trans (List.subset_cons_self _ _) sub
    refine ⟨List.subset_cons_of_subset _ past, fun fit => ?_⟩
    exact ⟨deep, all (fun t mem => fit t (List.mem_cons_of_mem _ mem)) List.nodup_nil (by simp)⟩
  · cases read

end

theorem sound_scalar {v : Value} (depth : Nat) (h : scalar ts = .ok (v, rest)) :
    rest ⊆ ts ∧ ((∀ t ∈ ts, t.Fit) → v.Sound depth) := by
  unfold scalar at h
  split at h
  · obtain ⟨rfl, rfl⟩ := Prod.mk.inj (Except.ok.inj h)
    exact ⟨List.subset_cons_self _ _, fun _ => by cases depth <;> trivial⟩
  · obtain ⟨rfl, rfl⟩ := Prod.mk.inj (Except.ok.inj h)
    exact ⟨List.subset_cons_self _ _, fun _ => by cases depth <;> trivial⟩
  · rename_i n _ _
    obtain ⟨rfl, rfl⟩ := Prod.mk.inj (Except.ok.inj h)
    refine ⟨List.subset_cons_self _ _, fun fit => ?_⟩
    have is : n.Fit := fit _ (List.mem_cons_self ..)
    cases depth <;> exact is
  · obtain ⟨rfl, rfl⟩ := Prod.mk.inj (Except.ok.inj h)
    exact ⟨List.subset_cons_self _ _, fun _ => by cases depth <;> trivial⟩
  · cases h

theorem gives_valueOf (depth : Nat) : Gives (valueOf depth) fun _ v => v.Sound depth := by
  induction depth with
  | zero =>
    intro budget ts v rest read
    unfold valueOf at read
    split at read
    · cases read
    · exact sound_scalar 0 read
  | succ depth ih =>
    have array : Gives ((list (valueOf depth)).map Value.array) fun _ v => v.Sound (depth + 1) :=
      (gives_list ih).map fun _ _ is => is.2
    have object : Gives ((membersOf (valueOf depth)).map Value.object)
        fun _ v => v.Sound (depth + 1) := (gives_membersOf ih).map fun _ _ is => is.2
    intro budget ts v rest read
    unfold valueOf at read
    split at read
    · exact array budget _ v rest read
    · exact object budget _ v rest read
    · exact sound_scalar (depth + 1) read

theorem gives_value : Gives value fun depth v => v.Sound depth := fun budget =>
  gives_valueOf budget.depth budget

theorem null_of_valueOf {depth : Nat} (h : valueOf depth budget ts = .ok (.null, rest)) :
    ∃ more, ts = .literal (.ok .null) :: more := by
  have plain (read : scalar ts = .ok (.null, rest)) :
      ∃ more, ts = .literal (.ok .null) :: more := by
    unfold scalar at read
    split at read
    · exact ⟨_, rfl⟩
    all_goals cases read
  cases depth with
  | zero =>
    unfold valueOf at h
    split at h
    · cases h
    · exact plain h
  | succ depth =>
    unfold valueOf at h
    split at h
    · obtain ⟨_, -, kept⟩ := bind_ok.mp h
      cases kept
    · obtain ⟨_, -, kept⟩ := bind_ok.mp h
      cases kept
    · exact plain h

theorem gives_optionalValue :
    Gives (option value) fun depth found => ∀ v ∈ found, v ≠ .null ∧ v.Sound depth := by
  intro budget ts found rest read
  obtain ⟨sub, sound⟩ := gives_option gives_value budget ts found rest read
  refine ⟨sub, fun fit v mem => ⟨?_, sound fit v mem⟩⟩
  rintro rfl
  obtain rfl := Option.mem_def.mp mem
  unfold option at read
  split at read
  · cases read
  · rename_i other
    obtain ⟨⟨v, left⟩, got, kept⟩ := bind_ok.mp read
    obtain ⟨null, rfl⟩ := Prod.mk.inj (Except.ok.inj kept)
    obtain rfl := Option.some.inj null
    obtain ⟨more, rfl⟩ := null_of_valueOf got
    exact other more rfl

section
variable {fields : List (Field ρ)} {good : Nat → ρ → Prop} {blank : ρ}

def Keeps (good : Nat → ρ → Prop) (f : Field ρ) : Prop :=
  Gives f.read fun depth change => ∀ r, good depth r → good depth (change r)

theorem keeps_field {value : Nat → α → Prop} {set : α → ρ → ρ} (h : Gives d value)
    (keeps : ∀ depth a, value depth a → ∀ r, good depth r → good depth (set a r))
    (names : List String) (required : Bool) : Keeps good ⟨names, required, d.map set⟩ :=
  h.map keeps

theorem mem_of_place {key : String} {i : Nat} {f : Field ρ}
    (h : place? fields key = some (i, f)) : f ∈ fields := by
  obtain ⟨⟨g, j⟩, found, eq⟩ := Option.map_eq_some_iff.mp h
  obtain ⟨-, rfl⟩ := Prod.mk.inj eq
  exact List.fst_mem_of_mem_zipIdx (List.mem_of_find?_eq_some found)

theorem fieldsOnto_gives (each : ∀ f ∈ fields, Keeps good f) {seen : List Nat} {r found : ρ}
    (read : fieldsOnto fields budget fuel first ts seen r = .ok (found, rest)) :
    rest ⊆ ts ∧ ((∀ t ∈ ts, t.Fit) → good budget.depth r → good budget.depth found) := by
  induction fuel generalizing first ts seen r with
  | zero => simp [fieldsOnto] at read
  | succ fuel ih =>
    obtain ⟨next, stepped, read⟩ := bind_ok.mp read
    cases next with
    | none =>
      simp only at read
      split at read
      · obtain ⟨rfl, rfl⟩ := Prod.mk.inj (Except.ok.inj read)
        exact ⟨List.Subset.refl _, fun _ is => is⟩
      · cases read
    | some next =>
      obtain ⟨key, next⟩ := next
      have front := nextKey_subset stepped
      simp only at read
      split at read
      · obtain ⟨after, colon, read⟩ := bind_ok.mp read
        obtain ⟨left, passed, read⟩ := bind_ok.mp read
        have past : left ⊆ ts :=
          List.Subset.trans (passOver_ok passed) (List.Subset.trans (passColon_subset colon) front)
        obtain ⟨back, all⟩ := ih read
        exact ⟨List.Subset.trans back past, fun fit => all fun t mem => fit t (past mem)⟩
      · rename_i i f place
        split at read
        · cases read
        · obtain ⟨after, colon, read⟩ := bind_ok.mp read
          obtain ⟨⟨change, left⟩, got, read⟩ := bind_ok.mp read
          have past : after ⊆ ts := List.Subset.trans (passColon_subset colon) front
          obtain ⟨sub, keeps⟩ := each f (mem_of_place place) budget after change left got
          obtain ⟨back, all⟩ := ih read
          refine ⟨List.Subset.trans back (List.Subset.trans sub past), fun fit is => ?_⟩
          exact all (fun t mem => fit t (past (sub mem)))
            (keeps (fun t mem => fit t (past mem)) r is)

theorem valuesOnto_gives (each : ∀ f ∈ fields, Keeps good f) {r found : ρ}
    (read : valuesOnto budget fields first ts r = .ok (found, rest)) :
    rest ⊆ ts ∧ ((∀ t ∈ ts, t.Fit) → good budget.depth r → good budget.depth found) := by
  induction fields generalizing first ts r with
  | nil =>
    obtain ⟨rfl, rfl⟩ := Prod.mk.inj (Except.ok.inj read)
    exact ⟨List.Subset.refl _, fun _ is => is⟩
  | cons f fields ih =>
    obtain ⟨next, stepped, read⟩ := bind_ok.mp read
    cases next with
    | none =>
      simp only at read
      split at read
      · cases read
      · obtain ⟨rfl, rfl⟩ := Prod.mk.inj (Except.ok.inj read)
        exact ⟨List.Subset.refl _, fun _ is => is⟩
    | some next =>
      have front := nextItem_subset stepped
      obtain ⟨⟨change, left⟩, got, read⟩ := bind_ok.mp read
      obtain ⟨sub, keeps⟩ := each f (by simp) budget next change left got
      obtain ⟨back, all⟩ := ih (fun g mem => each g (List.mem_cons_of_mem f mem)) read
      refine ⟨List.Subset.trans back (List.Subset.trans sub front), fun fit is => ?_⟩
      exact all (fun t mem => fit t (front (sub mem)))
        (keeps (fun t mem => fit t (front mem)) r is)

theorem gives_record (each : ∀ f ∈ fields, Keeps good f) (start : ∀ depth, good depth blank) :
    Gives (record fields blank) fun depth r => 0 < depth ∧ good (depth - 1) r := by
  intro budget ts found rest read
  unfold record at read
  split at read
  · obtain ⟨deep, inside⟩ := inside_ok read
    obtain ⟨sub, all⟩ := fieldsOnto_gives each inside
    have past := List.Subset.trans (List.subset_cons_self _ _) sub
    refine ⟨List.subset_cons_of_subset _ past, fun fit => ?_⟩
    exact ⟨deep, all (fun t mem => fit t (List.mem_cons_of_mem _ mem)) (start _)⟩
  · obtain ⟨deep, inside⟩ := inside_ok read
    obtain ⟨sub, all⟩ := valuesOnto_gives each inside
    have past := List.Subset.trans (List.subset_cons_self _ _) sub
    refine ⟨List.subset_cons_of_subset _ past, fun fit => ?_⟩
    exact ⟨deep, all (fun t mem => fit t (List.mem_cons_of_mem _ mem)) (start _)⟩
  · cases read

end

theorem Gives.decode (h : Gives d good) {document : List Symbol} {a : α}
    (read : decode d document = .ok a) : good greatestDepth a := by
  obtain ⟨⟨b, left⟩, found, kept⟩ := bind_ok.mp read
  obtain ⟨-, is⟩ := h _ _ _ _ found
  simp only at kept
  split at kept
  · obtain rfl := Except.ok.inj kept
    exact is (tokens_fit document)
  · cases kept

end Hotplug.Json
