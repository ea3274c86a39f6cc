import Hotplug.Proofs.Json.Records
/-!
Records, field by field. A field of a record is what the documents say that stand for it: those under
its name in an object, or the one at its place in a list. Fields with several names are not covered.
-/
namespace Hotplug.Json

variable {α ρ : Type}

/-- What an object holds under a name, in the order in which it is written. -/
def given (members : List (List Piece × Document)) (name : String) : List Document :=
  (members.filter fun m => textOf? m.1 = some name).map (·.2)

/-- What the fields of a record are given: by their names in an object whose keys are all texts, by
their places in a list that is not longer than the record. -/
def Document.fields? (names : List String) : Document → Option (String → List Document)
  | .object members => if members.all fun m => (textOf? m.1).isSome then some (given members) else none
  | .array items =>
    if items.length ≤ names.length then some fun name => (items[names.idxOf name]?).toList else none
  | _ => none

/-- What a field says that is given once, or left out if it has a default. -/
def once? (default : Option α) (means : Document → Option α) : List Document → Option α
  | [] => default
  | [d] => means d
  | _ => none

/-- The fields have one name each, and no two the same. -/
structure Named (fields : List (Field ρ)) (names : List String) : Prop where
  apart : names.Nodup
  single : fields.map (·.names) = names.map fun name => [name]

section
variable {fields : List (Field ρ)} {names : List String} {i j : Nat} {f : Field ρ} {name key : String}

theorem Named.names_eq (named : Named fields names) (at_ : fields[i]? = some f)
    (called : names[i]? = some name) : f.names = [name] := by
  have same := congrArg (·[i]?) named.single
  simpa [at_, called] using same

theorem Named.called (named : Named fields names) (at_ : fields[i]? = some f)
    (mem : key ∈ f.names) : names[i]? = some key := by
  have same := congrArg (·[i]?) named.single
  simp only [List.getElem?_map, at_, Option.map_some] at same
  obtain ⟨name, called, single⟩ := Option.map_eq_some_iff.mp same.symm
  rw [← single, List.mem_singleton] at mem
  rw [mem]
  exact called

theorem Named.exists_name (named : Named fields names) (at_ : fields[i]? = some f) :
    ∃ name, names[i]? = some name := by
  have same := congrArg (·[i]?) named.single
  simp only [List.getElem?_map, at_, Option.map_some] at same
  obtain ⟨name, called, -⟩ := Option.map_eq_some_iff.mp same.symm
  exact ⟨name, called⟩

theorem Named.index_eq (named : Named fields names) (called : names[i]? = some name)
    (called' : names[j]? = some name) : i = j := by
  obtain ⟨inside, -⟩ := List.getElem?_eq_some_iff.mp called
  exact (List.getElem?_inj inside named.apart).mp (called.trans called'.symm)

theorem Named.called_of_place (named : Named fields names) (place : place? fields key = some (i, f)) :
    fields[i]? = some f ∧ names[i]? = some key := by
  have at_ := getElem?_of_place place
  obtain ⟨⟨g, j⟩, found, eq⟩ := Option.map_eq_some_iff.mp place
  obtain ⟨rfl, rfl⟩ := Prod.mk.inj eq
  have mem : key ∈ g.names := by simpa using List.find?_some found
  exact ⟨at_, named.called at_ mem⟩

theorem Named.place_iff (named : Named fields names) :
    place? fields key = some (i, f) ↔ fields[i]? = some f ∧ names[i]? = some key := by
  constructor
  · exact named.called_of_place
  · rintro ⟨at_, called⟩
    have held : (f, i) ∈ fields.zipIdx := List.mem_zipIdx_iff_getElem?.mpr at_
    have asked : f.names.contains key = true := by simp [named.names_eq at_ called]
    cases place : place? fields key with
    | none =>
      have unasked := List.find?_eq_none.mp (Option.map_eq_none_iff.mp place) (f, i) held
      exact absurd asked unasked
    | some placed =>
      obtain ⟨j, g⟩ := placed
      obtain ⟨at', called'⟩ := named.called_of_place place
      obtain rfl := named.index_eq called called'
      obtain rfl := Option.some.inj (at_.symm.trans at')
      rfl

theorem given_cons_self {ps : List Piece} {d : Document} {members : List (List Piece × Document)}
    (text : textOf? ps = some name) : given ((ps, d) :: members) name = d :: given members name := by
  simp [given, text]

theorem given_cons_of_ne {ps : List Piece} {d : Document} {members : List (List Piece × Document)}
    (text : textOf? ps = some key) (ne : key ≠ name) :
    given ((ps, d) :: members) name = given members name := by
  simp [given, text, ne]

theorem required_of_complete {seen : List Nat} (met : complete fields seen = true)
    (at_ : fields[i]? = some f) (unseen : i ∉ seen) : f.required = false := by
  have mem : (f, i) ∈ fields.zipIdx := List.mem_zipIdx_iff_getElem?.mpr at_
  have each := List.all_eq_true.mp met (f, i) mem
  simpa [unseen] using each

/-- A field by itself: what it shows of a record, what its documents say of that, and that no other
field changes it. -/
structure Alone (tells : List (Document → (ρ → ρ) → Prop)) (i : Nat) (get : ρ → α)
    (means : Document → Option α) : Prop where
  own : ∀ tell, tells[i]? = some tell → ∀ d change, tell d change →
    ∀ r, means d = some (get (change r))
  others : ∀ j tell, j ≠ i → tells[j]? = some tell → ∀ d change, tell d change →
    ∀ r, get (change r) = get r

variable {tells : List (Document → (ρ → ρ) → Prop)} {get : ρ → α} {means : Document → Option α}
  {members : List (List Piece × Document)} {items : List Document} {seen : List Nat} {r u : ρ}

def fallback (f : Field ρ) (a : α) : Option α := if f.required then none else some a

theorem Walk.once (walk : Walk fields tells members seen r u) (named : Named fields names)
    (alone : Alone tells i get means) (at_ : fields[i]? = some f) (called : names[i]? = some name) :
    (i ∈ seen → given members name = [] ∧ get u = get r) ∧
      (i ∉ seen → once? (fallback f (get r)) means (given members name) = some (get u)) := by
  induction walk with
  | done met =>
    refine ⟨fun _ => ⟨rfl, rfl⟩, fun unseen => ?_⟩
    simp [given, once?, fallback, required_of_complete met at_ unseen]
  | @passed ps key d members _ _ _ text place _ ih =>
    have ne : key ≠ name := by
      rintro rfl
      rw [named.place_iff.mpr ⟨at_, called⟩] at place
      cases place
    rw [given_cons_of_ne text ne]
    exact ih
  | @taken ps key d members seen r u j g tell change text place fresh tells_ told _ ih =>
    obtain ⟨at', called'⟩ := named.place_iff.mp place
    by_cases same : j = i
    · subst same
      obtain rfl : key = name := Option.some.inj (called'.symm.trans called)
      obtain ⟨none, kept⟩ := ih.1 (List.mem_cons_self ..)
      refine ⟨fun seen => absurd seen fresh, fun _ => ?_⟩
      rw [given_cons_self text, none, once?, alone.own tell tells_ d change told r, kept]
    · have ne : key ≠ name := by
        rintro rfl
        exact same (named.index_eq called' called)
      have kept := alone.others j tell same tells_ d change told r
      have mem : i ∈ j :: seen ↔ i ∈ seen := by simp [Ne.symm same]
      rw [given_cons_of_ne text ne]
      rw [mem, kept] at ih
      exact ih

theorem Walk.texts (walk : Walk fields tells members seen r u) :
    members.all (fun m => (textOf? m.1).isSome) = true := by
  induction walk with
  | done _ => rfl
  | passed text _ _ ih => simpa [text] using ih
  | taken text _ _ _ _ _ ih => simpa [text] using ih

theorem Row.length_le {k : Nat} (row : Row fields tells k items r u) :
    items.length ≤ fields.length - k := by
  induction row with
  | done _ => exact Nat.zero_le _
  | taken inside _ _ _ ih =>
    rw [List.length_cons]
    omega

theorem Row.once {k : Nat} (row : Row fields tells k items r u) (alone : Alone tells i get means)
    (at_ : fields[i]? = some f) : (i < k → get u = get r) ∧
      (k ≤ i → once? (fallback f (get r)) means (items[i - k]?).toList = some (get u)) := by
  induction row with
  | @done k r optional =>
    refine ⟨fun _ => rfl, fun from_ => ?_⟩
    have mem : f ∈ fields.drop k := by
      apply List.mem_of_getElem? (i := i - k)
      rw [List.getElem?_drop, Nat.add_sub_cancel' from_]
      exact at_
    simp [once?, fallback, optional f mem]
  | @taken k d items r u tell change inside tells_ told _ ih =>
    have other (ne : i ≠ k) : get (change r) = get r :=
      alone.others k tell ne.symm tells_ d change told r
    constructor
    · intro before
      rw [ih.1 (by omega), other (by omega)]
    · intro from_
      by_cases same : k = i
      · subst same
        have kept := ih.1 (Nat.lt_succ_self k)
        simp only [Nat.sub_self, List.getElem?_cons_zero, Option.toList_some, once?]
        rw [alone.own tell tells_ d change told r, kept]
      · have later := ih.2 (by omega)
        have shift : i - k = (i - (k + 1)) + 1 := by omega
        rw [shift, List.getElem?_cons_succ, ← other (by omega)]
        exact later

/-- A record shows in each field what the documents say that the field is given. -/
theorem Recorded.fields_once {blank : ρ} {doc : Document}
    (recorded : Recorded fields tells blank doc u) (named : Named fields names) :
    ∃ docs, doc.fields? names = some docs ∧
      ∀ (γ : Type) (i : Nat) (f : Field ρ) (name : String) (get : ρ → γ)
        (means : Document → Option γ), Alone tells i get means → fields[i]? = some f →
        names[i]? = some name → once? (fallback f (get blank)) means (docs name) = some (get u) := by
  cases recorded with
  | @object members _ walk =>
    refine ⟨given members, by simp [Document.fields?, walk.texts], ?_⟩
    intro γ i f name get means alone at_ called
    exact (walk.once named alone at_ called).2 List.not_mem_nil
  | @array items _ row =>
    have short : items.length ≤ names.length := by
      have lengths := congrArg List.length named.single
      rw [List.length_map, List.length_map] at lengths
      rw [← lengths]
      exact row.length_le
    refine ⟨fun name => (items[names.idxOf name]?).toList,
      by simp only [Document.fields?, short, if_true], ?_⟩
    intro γ i f name get means alone at_ called
    obtain ⟨inside, rfl⟩ := List.getElem?_eq_some_iff.mp called
    dsimp only
    rw [named.apart.idxOf_getElem i inside]
    exact (row.once alone at_).2 (Nat.zero_le i)

def Found (tells : List (Document → (ρ → ρ) → Prop)) (i : Nat) (docs : List Document) : Prop :=
  ∃ d tell change, docs = [d] ∧ tells[i]? = some tell ∧ tell d change

theorem exists_walk (named : Named fields names)
    (texts : members.all (fun m => (textOf? m.1).isSome) = true)
    (each : ∀ i f name, fields[i]? = some f → names[i]? = some name →
      given members name = [] ∧ (i ∉ seen → f.required = false) ∨
        i ∉ seen ∧ Found tells i (given members name)) :
    ∃ u, Walk fields tells members seen r u := by
  induction members generalizing seen r with
  | nil =>
    refine ⟨r, .done ?_⟩
    rw [complete, List.all_eq_true]
    rintro ⟨f, i⟩ mem
    have at_ : fields[i]? = some f := List.mem_zipIdx_iff_getElem?.mp mem
    obtain ⟨name, called⟩ := named.exists_name at_
    rcases each i f name at_ called with ⟨-, optional⟩ | ⟨-, d, tell, change, only, -⟩
    · by_cases met : i ∈ seen
      · simp [met]
      · simp [optional met]
    · cases only
  | cons m members ih =>
    obtain ⟨ps, d⟩ := m
    rw [List.all_cons, Bool.and_eq_true] at texts
    obtain ⟨key, text⟩ := Option.isSome_iff_exists.mp texts.1
    cases place : place? fields key with
    | none =>
      have onward : ∃ u, Walk fields tells members seen r u := by
        apply ih texts.2
        intro i f name at_ called
        have ne : key ≠ name := by
          rintro rfl
          rw [named.place_iff.mpr ⟨at_, called⟩] at place
          cases place
        rw [← given_cons_of_ne text ne]
        exact each i f name at_ called
      obtain ⟨u, walk⟩ := onward
      exact ⟨u, .passed text place walk⟩
    | some placed =>
      obtain ⟨i, f⟩ := placed
      obtain ⟨at_, called⟩ := named.place_iff.mp place
      have here := each i f key at_ called
      rw [given_cons_self text] at here
      rcases here with ⟨none, -⟩ | ⟨fresh, d', tell, change, only, tells_, told⟩
      · cases none
      · obtain ⟨rfl, none⟩ := List.cons.inj only
        have onward : ∃ u, Walk fields tells members (i :: seen) (change r) u := by
          apply ih texts.2
          intro j g name at' called'
          by_cases same : j = i
          · subst same
            obtain rfl := Option.some.inj (called.symm.trans called')
            exact .inl ⟨none, fun unseen => absurd (List.mem_cons_self ..) unseen⟩
          · have ne : key ≠ name := by
              rintro rfl
              exact same (named.index_eq called' called)
            have mem : j ∈ i :: seen ↔ j ∈ seen := by simp [same]
            rw [mem, ← given_cons_of_ne text ne]
            exact each j g name at' called'
        obtain ⟨u, walk⟩ := onward
        exact ⟨u, .taken text place fresh tells_ told walk⟩

theorem exists_row {k : Nat} (short : items.length ≤ fields.length - k)
    (each : ∀ i f, k ≤ i → fields[i]? = some f →
      (items[i - k]?).toList = [] ∧ f.required = false ∨ Found tells i (items[i - k]?).toList) :
    ∃ u, Row fields tells k items r u := by
  induction items generalizing k r with
  | nil =>
    refine ⟨r, .done fun f mem => ?_⟩
    obtain ⟨j, at_⟩ := List.getElem?_of_mem mem
    rw [List.getElem?_drop] at at_
    rcases each (k + j) f (Nat.le_add_right k j) at_ with ⟨-, optional⟩ | ⟨d, _, _, only, -⟩
    · exact optional
    · simp at only
  | cons d items ih =>
    rw [List.length_cons] at short
    have inside : k < fields.length := by omega
    have here := each k fields[k] (Nat.le_refl k) (List.getElem?_eq_getElem inside)
    simp only [Nat.sub_self, List.getElem?_cons_zero, Option.toList_some] at here
    rcases here with ⟨none, -⟩ | ⟨d', tell, change, only, tells_, told⟩
    · cases none
    · obtain ⟨rfl, -⟩ := List.cons.inj only
      have onward : ∃ u, Row fields tells (k + 1) items (change r) u := by
        apply ih (by omega)
        intro i f from_ at_
        have later := each i f (by omega) at_
        have shift : i - k = (i - (k + 1)) + 1 := by omega
        rwa [shift, List.getElem?_cons_succ] at later
      obtain ⟨u, row⟩ := onward
      exact ⟨u, .taken inside tells_ told row⟩

theorem exists_recorded {doc : Document} {docs : String → List Document} {blank : ρ}
    (named : Named fields names) (parts : doc.fields? names = some docs)
    (each : ∀ i f name, fields[i]? = some f → names[i]? = some name →
      docs name = [] ∧ f.required = false ∨ Found tells i (docs name)) :
    ∃ u, Recorded fields tells blank doc u := by
  match doc with
  | .object members =>
    simp only [Document.fields?, Option.ite_none_right_eq_some, Option.some.injEq] at parts
    obtain ⟨texts, rfl⟩ := parts
    have walked : ∃ u, Walk fields tells members [] blank u := by
      apply exists_walk named texts
      intro i f name at_ called
      rcases each i f name at_ called with ⟨none, optional⟩ | found
      · exact .inl ⟨none, fun _ => optional⟩
      · exact .inr ⟨List.not_mem_nil, found⟩
    obtain ⟨u, walk⟩ := walked
    exact ⟨u, .object walk⟩
  | .array items =>
    simp only [Document.fields?, Option.ite_none_right_eq_some, Option.some.injEq] at parts
    obtain ⟨short, rfl⟩ := parts
    have lengths := congrArg List.length named.single
    rw [List.length_map, List.length_map] at lengths
    have placed : ∃ u, Row fields tells 0 items blank u := by
      apply exists_row (by omega)
      intro i f _ at_
      obtain ⟨name, called⟩ := named.exists_name at_
      have here := each i f name at_ called
      obtain ⟨inside, rfl⟩ := List.getElem?_eq_some_iff.mp called
      dsimp only at here
      rwa [named.apart.idxOf_getElem i inside] at here
    obtain ⟨u, row⟩ := placed
    exact ⟨u, .array row⟩
  | .literal _ | .number _ | .string _ => cases parts

end

section
variable {d : Decoder α} {depth : Nat} {means : Document → Option α} {doc : Document}

def Sets (means : Document → Option α) (set : α → ρ → ρ) (doc : Document) (change : ρ → ρ) : Prop :=
  ∃ a, means doc = some a ∧ change = set a

theorem Hears.sets_complete (h : Hears d depth means) (set : α → ρ → ρ) :
    Complete (d.map set) depth (Sets means set) := by
  rintro doc _ ⟨a, told, rfl⟩ room rest fits
  exact bind_ok.mpr ⟨_, h.complete doc a told room rest fits, rfl⟩

theorem Hears.sets_faithful (h : Hears d depth means) (set : α → ρ → ρ) :
    Faithful (d.map set) depth (Sets means set) := by
  intro room t change rest read
  obtain ⟨⟨a, left⟩, got, kept⟩ := bind_ok.mp read
  obtain ⟨rfl, rfl⟩ := Prod.mk.inj (Except.ok.inj kept)
  obtain ⟨doc, s, begins, rest, told⟩ := h.faithful room t a _ got
  exact ⟨doc, s, begins, rest, a, told, rfl⟩

theorem hears_record {fields : List (Field ρ)} {tells : List (Document → (ρ → ρ) → Prop)}
    {blank : ρ} {means : Document → Option ρ}
    (complete : List.Forall₂ (fun f tell => Complete f.read depth tell) fields tells)
    (faithful : List.Forall₂ (fun f tell => Faithful f.read depth tell) fields tells)
    (same : ∀ doc u, Recorded fields tells blank doc u ↔ means doc = some u) :
    Hears (record fields blank) (depth + 1) means where
  complete := by
    intro doc u told
    exact record_complete complete doc u ((same doc u).mpr told)
  faithful := by
    intro room t u rest read
    obtain ⟨doc, s, begins, rest, recorded⟩ := record_faithful faithful room t u rest read
    exact ⟨doc, s, begins, rest, (same doc u).mp recorded⟩

theorem once?_eq_some {default : Option α} {docs : List Document} {a : α}
    (said : once? default means docs = some a) :
    docs = [] ∧ default = some a ∨ ∃ d, docs = [d] ∧ means d = some a := by
  match docs with
  | [] => exact .inl ⟨rfl, said⟩
  | [d] => exact .inr ⟨d, rfl, said⟩

/-- What a record with one field is that may be left out. -/
def Document.sole? (name : String) (blank : α) (means : Document → Option α) (doc : Document) :
    Option α := do
  let docs ← doc.fields? [name]
  once? (some blank) means (docs name)

theorem recorded_sole {name : String} {set : α → ρ} {blank u : ρ} :
    Recorded [field name d fun a _ => set a] [Sets means fun a _ => set a] blank doc u ↔
      doc.sole? name blank (fun doc => (means doc).map set) = some u := by
  have named : Named [field (ρ := ρ) name d fun a _ => set a] [name] :=
    ⟨List.nodup_singleton name, rfl⟩
  have shows {u : ρ}
      (recorded : Recorded [field name d fun a _ => set a] [Sets means fun a _ => set a] blank doc u) :
      doc.sole? name blank (fun doc => (means doc).map set) = some u := by
    obtain ⟨docs, parts, each⟩ := recorded.fields_once named
    have alone : Alone [Sets means fun a (_ : ρ) => set a] 0 id (fun doc => (means doc).map set) := by
      constructor
      · rintro _ ⟨⟩ doc _ ⟨a, told, rfl⟩ r
        simp [told]
      · rintro (_ | j) _ ne at_
        · exact absurd rfl ne
        · cases at_
    exact Option.bind_eq_some_iff.mpr ⟨docs, parts, each ρ 0 _ name id _ alone rfl rfl⟩
  constructor
  · exact shows
  · intro said
    obtain ⟨docs, parts, once⟩ := Option.bind_eq_some_iff.mp said
    have found : ∃ v, Recorded [field name d fun a _ => set a] [Sets means fun a _ => set a] blank doc v := by
      apply exists_recorded named parts
      rintro (_ | i) f _ ⟨⟩ ⟨⟩
      rcases once?_eq_some once with ⟨none, -⟩ | ⟨doc, only, told⟩
      · exact .inl ⟨none, rfl⟩
      · obtain ⟨a, told, -⟩ := Option.map_eq_some_iff.mp told
        exact .inr ⟨doc, _, _, only, rfl, a, told, rfl⟩
    obtain ⟨v, recorded⟩ := found
    obtain rfl := Option.some.inj (said.symm.trans (shows recorded))
    exact recorded

theorem Hears.sole (h : Hears d depth means) (name : String) (set : α → ρ) (blank : ρ) :
    Hears (record [field name d fun a _ => set a] blank) (depth + 1)
      (Document.sole? name blank fun doc => (means doc).map set) := by
  have complete := h.sets_complete fun a (_ : ρ) => set a
  have faithful := h.sets_faithful fun a (_ : ρ) => set a
  exact hears_record (.cons complete .nil) (.cons faithful .nil) fun _ _ => recorded_sole

end

end Hotplug.Json
