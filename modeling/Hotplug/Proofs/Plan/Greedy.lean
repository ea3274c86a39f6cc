import Hotplug.Proofs.Plan.Matching
/-!
The claims of a plan for requests and entries of any names. Going through the requests, one with
an interface takes its own key, and one without takes the least key of its network that nothing
has claimed, so that in the end no lesser one is left. Who of two requests of one network is
first is not covered.
-/
namespace Hotplug.Plan

variable {entries : List StatusEntry} {desired : List Attachment} {seen claimed : List String}

structure Turn (entries : List StatusEntry) (claimed : List String) (a : Attachment)
    (key : Option String) (next : List String) : Prop where
  own : a.interface ≠ "" →
    key = if a.key ∈ Index.keys StatusEntry.key entries then some a.key else none
  network : a.interface = "" → ∀ k, key = some k →
    k ∉ claimed ∧ ∃ e ∈ entries, e.name = a.statusName ∧ e.key = k
  claims : ∀ k, k ∈ next ↔ k ∈ claimed ∨ key = some k
  least : a.interface = "" → ∀ e ∈ entries, e.name = a.statusName → e.key ∉ next →
    ∃ k, key = some k ∧ k < e.key

/-- The own keys of requests with an interface are claimed if they are there, and no key is
claimed that is not. -/
structure Prepared (entries : List StatusEntry) (desired : List Attachment)
    (claimed : List String) : Prop where
  inside : ∀ k ∈ claimed, k ∈ Index.keys StatusEntry.key entries
  complete : ∀ a ∈ desired, a.interface ≠ "" → a.key ∈ Index.keys StatusEntry.key entries →
    a.key ∈ claimed

/-- The first of some requests has its turn, and the others go on with the claims that it leaves. -/
structure Advance (entries : List StatusEntry) (a : Attachment) (more : List Attachment)
    (claimed : List String) (key : Option String) (next : List String) : Prop where
  turn : Turn entries claimed a key next
  prepared : Prepared entries more next
  assigned : ∀ seen, a.key ∉ seen → assign entries (a :: more) seen claimed =
    (if key.isNone then a :: (assign entries more (a.key :: seen) next).1
      else (assign entries more (a.key :: seen) next).1,
    (assign entries more (a.key :: seen) next).2)

section
variable {a : Attachment} {more : List Attachment} (prepared : Prepared entries (a :: more) claimed)
include prepared

theorem Prepared.tail : Prepared entries more claimed :=
  ⟨prepared.inside, fun b hb => prepared.complete b (List.mem_cons_of_mem a hb)⟩

/-- A request without an interface takes the least key that is left to it, if any. -/
theorem exists_advance_of_bare (unnamed : a.interface = "") :
    ∃ key next, Advance entries a more claimed key next := by
  cases pick : candidate? entries claimed a.statusName with
  | none =>
    refine ⟨none, claimed, ?_, prepared.tail, ?_⟩
    · refine ⟨fun named => absurd unnamed named, by simp, by simp, ?_⟩
      intro _ e he name free
      exact absurd (candidate?_eq_none.mp pick e he name) free
    · intro seen unseen
      exact assign_unmet unseen (by simp [meet?, unnamed, pick])
  | some k =>
    obtain ⟨⟨d, hd, network, key, free⟩, least⟩ := candidate?_eq_some.mp pick
    refine ⟨some k, k :: claimed, ?_, ?_, ?_⟩
    · refine ⟨fun named => absurd unnamed named, ?_, ?_, ?_⟩
      · rintro - _ ⟨⟩
        exact ⟨free, d, hd, network, key⟩
      · intro l
        rw [List.mem_cons, or_comm, Option.some.injEq, eq_comm]
      · intro _ e he name left
        rw [List.mem_cons, not_or] at left
        exact ⟨k, rfl, lt_of_le_of_ne (least e he name left.2) (Ne.symm left.1)⟩
    · constructor
      · rintro l (_ | ⟨_, mem⟩)
        · exact Index.mem_keys.mpr ⟨d, hd, key⟩
        · exact prepared.inside l mem
      · intro b hb named present
        exact List.mem_cons_of_mem k (prepared.tail.complete b hb named present)
    · intro seen unseen
      exact assign_met (k :: claimed) unseen (by simp [meet?, unnamed, pick])

/-- A request with an interface has claimed its own key before, if that is there. -/
theorem exists_advance_of_named (named : a.interface ≠ "") :
    ∃ key next, Advance entries a more claimed key next := by
  by_cases present : a.key ∈ Index.keys StatusEntry.key entries
  · have held := prepared.complete a List.mem_cons_self named present
    refine ⟨some a.key, claimed, ?_, prepared.tail, ?_⟩
    · refine ⟨fun _ => (if_pos present).symm, fun bare => absurd bare named, ?_,
        fun bare => absurd bare named⟩
      intro k
      constructor
      · exact .inl
      · rintro (mem | own)
        · exact mem
        · rwa [← Option.some.inj own]
    · intro seen unseen
      exact assign_met claimed unseen (by simp [meet?, named, held])
  · have free : a.key ∉ claimed := fun mem => present (prepared.inside _ mem)
    refine ⟨none, claimed, ?_, prepared.tail, ?_⟩
    · exact ⟨fun _ => (if_neg present).symm, fun bare => absurd bare named, by simp,
        fun bare => absurd bare named⟩
    · intro seen unseen
      exact assign_unmet unseen (by simp [meet?, named, free])

theorem exists_advance : ∃ key next, Advance entries a more claimed key next := by
  by_cases unnamed : a.interface = ""
  · exact exists_advance_of_bare prepared unnamed
  · exact exists_advance_of_named prepared unnamed

end

structure Takes (entries : List StatusEntry) (desired : List Attachment)
    (seen claimed : List String) (taken : Attachment → Option String) : Prop where
  own : ∀ a ∈ firsts seen desired, a.interface ≠ "" →
    taken a = if a.key ∈ Index.keys StatusEntry.key entries then some a.key else none
  network : ∀ a ∈ firsts seen desired, a.interface = "" → ∀ k, taken a = some k →
    k ∉ claimed ∧ ∃ e ∈ entries, e.name = a.statusName ∧ e.key = k
  injective : ∀ a ∈ firsts seen desired, ∀ b ∈ firsts seen desired, ∀ k,
    taken a = some k → taken b = some k → a = b
  unmet : (assign entries desired seen claimed).1 =
    (firsts seen desired).filter fun a => (taken a).isNone
  claims : ∀ k, k ∈ (assign entries desired seen claimed).2 ↔
    k ∈ claimed ∨ ∃ a ∈ firsts seen desired, taken a = some k
  least : ∀ a ∈ firsts seen desired, a.interface = "" → ∀ e ∈ entries, e.name = a.statusName →
    e.key ∉ (assign entries desired seen claimed).2 → ∃ k, taken a = some k ∧ k < e.key

section
variable {a : Attachment} {more : List Attachment} {key : Option String} {next : List String}
  {taken : Attachment → Option String}

/-- No later request takes what an earlier one has. -/
theorem Turn.apart (turn : Turn entries claimed a key next)
    (prepared : Prepared entries (a :: more) claimed)
    (rest : Takes entries more (a.key :: seen) next taken) {b : Attachment}
    (later : b ∈ firsts (a.key :: seen) more) {k : String} (one : key = some k)
    (two : taken b = some k) : False := by
  obtain ⟨mem, fresh⟩ := mem_of_mem_firsts later
  by_cases bare : b.interface = ""
  · exact (rest.network b later bare k two).1 ((turn.claims k).mpr (.inr one))
  · rw [rest.own b later bare, Option.ite_none_right_eq_some, Option.some.injEq] at two
    obtain ⟨present, rfl⟩ := two
    by_cases unnamed : a.interface = ""
    · exact (turn.network unnamed b.key one).1
        (prepared.complete b (List.mem_cons_of_mem a mem) bare present)
    · rw [turn.own unnamed, Option.ite_none_right_eq_some, Option.some.injEq] at one
      exact fresh (by simp [one.2])

theorem Takes.cons (advance : Advance entries a more claimed key next)
    (prepared : Prepared entries (a :: more) claimed) (unseen : a.key ∉ seen)
    (rest : Takes entries more (a.key :: seen) next taken) :
    Takes entries (a :: more) seen claimed fun b => if b = a then key else taken b := by
  have turn := advance.turn
  have step := advance.assigned seen unseen
  have first : firsts seen (a :: more) = a :: firsts (a.key :: seen) more := by
    simp [firsts, unseen]
  have own : (fun b => if b = a then key else taken b) a = key := if_pos rfl
  have other : ∀ b ∈ firsts (a.key :: seen) more,
      (fun b => if b = a then key else taken b) b = taken b := by
    intro b later
    apply if_neg
    rintro rfl
    exact (mem_of_mem_firsts later).2 (by simp)
  generalize (fun b => if b = a then key else taken b) = joined at own other
  constructor
  case own =>
    rw [first]
    refine List.forall_mem_cons.mpr ⟨?_, ?_⟩
    · rw [own]
      exact turn.own
    · intro b later
      rw [other b later]
      exact rest.own b later
  case network =>
    rw [first]
    refine List.forall_mem_cons.mpr ⟨?_, ?_⟩
    · rw [own]
      exact turn.network
    · intro b later bare k takes
      rw [other b later] at takes
      obtain ⟨free, entry⟩ := rest.network b later bare k takes
      exact ⟨fun mem => free ((turn.claims k).mpr (.inl mem)), entry⟩
  case injective =>
    rw [first]
    intro b hb c hc k one two
    rcases List.mem_cons.mp hb with rfl | later <;> rcases List.mem_cons.mp hc with rfl | later'
    · rfl
    · rw [own] at one
      rw [other c later'] at two
      exact (turn.apart prepared rest later' one two).elim
    · rw [own] at two
      rw [other b later] at one
      exact (turn.apart prepared rest later two one).elim
    · rw [other b later] at one
      rw [other c later'] at two
      exact rest.injective b later c later' k one two
  case unmet =>
    have tail : (firsts (a.key :: seen) more).filter (fun b => (joined b).isNone) =
        (firsts (a.key :: seen) more).filter fun b => (taken b).isNone :=
      List.filter_congr fun b later => by rw [other b later]
    rw [step, first, rest.unmet, List.filter_cons, own, tail]
  case claims =>
    intro k
    rw [step, rest.claims, turn.claims, first, or_assoc]
    apply or_congr_right
    simp only [List.mem_cons, exists_eq_or_imp, own]
    apply or_congr_right
    constructor
    · rintro ⟨b, later, takes⟩
      exact ⟨b, later, (other b later).trans takes⟩
    · rintro ⟨b, later, takes⟩
      exact ⟨b, later, (other b later).symm.trans takes⟩
  case least =>
    rw [step, first]
    refine List.forall_mem_cons.mpr ⟨?_, ?_⟩
    · rw [own]
      intro unnamed e he name free
      exact turn.least unnamed e he name fun mem => free ((rest.claims e.key).mpr (.inl mem))
    · intro b later
      rw [other b later]
      exact rest.least b later

end

theorem exists_takes (prepared : Prepared entries desired claimed) :
    ∃ taken, Takes entries desired seen claimed taken := by
  induction desired generalizing seen claimed with
  | nil => exact ⟨fun _ => none, by constructor <;> simp [firsts, assign]⟩
  | cons a more ih =>
    by_cases old : a.key ∈ seen
    · have skipped : firsts seen (a :: more) = firsts seen more := by simp [firsts, old]
      obtain ⟨taken, takes⟩ := @ih seen claimed prepared.tail
      refine ⟨taken, ?_⟩
      constructor
      all_goals rw [skipped]
      · exact takes.own
      · exact takes.network
      · exact takes.injective
      · rw [assign_seen old]
        exact takes.unmet
      · rw [assign_seen old]
        exact takes.claims
      · rw [assign_seen old]
        exact takes.least
    · obtain ⟨key, next, advance⟩ := exists_advance prepared
      obtain ⟨taken, takes⟩ := @ih (a.key :: seen) next advance.prepared
      exact ⟨_, takes.cons advance prepared old⟩

variable {observed : List StatusEntry} {taken : Attachment → Option String}

/-- The keys that the requests claim: their own ones, if they name an interface, and those that
the first requests take. -/
def claimedBy (desired : List Attachment) (observed : List StatusEntry)
    (taken : Attachment → Option String) : List String :=
  fixedClaims desired observed ++ (firsts [] desired).filterMap taken

/-- No request without an interface takes a key, or none, where a lesser one of its network is
left. -/
def LeavesNoLesser (desired : List Attachment) (observed : List StatusEntry)
    (taken : Attachment → Option String) : Prop :=
  ∀ a ∈ firsts [] desired, a.interface = "" → ∀ e ∈ attached observed, e.name = a.statusName →
    e.key ∉ claimedBy desired observed taken → ∃ k, taken a = some k ∧ k < e.key

theorem prepared_fixedClaims (desired : List Attachment) (observed : List StatusEntry) :
    Prepared (attached observed) desired (fixedClaims desired observed) where
  inside := by
    intro k fixed
    exact Index.mem_keys.mpr (mem_fixedClaims.mp fixed).2
  complete := by
    intro a asked named present
    exact mem_fixedClaims.mpr ⟨⟨a, asked, named, rfl⟩, Index.mem_keys.mp present⟩

/-- A plan comes from a matching whatever the names: it adds what takes nothing, and gives up the
last entry of each key that is not claimed. -/
theorem exists_matching (desired : List Attachment) (observed : List StatusEntry) :
    ∃ taken, Matching desired observed taken ∧ LeavesNoLesser desired observed taken ∧
      (compute desired observed).add = unmatched desired taken ∧
      (compute desired observed).remove = ((attachedKeys observed).filter fun k =>
        !(claimedBy desired observed taken).contains k).filterMap (removalOf? observed) := by
  obtain ⟨taken, takes⟩ := @exists_takes _ _ [] _ (prepared_fixedClaims desired observed)
  have claims (k : String) :
      k ∈ (assign (attached observed) desired [] (fixedClaims desired observed)).2 ↔
        k ∈ claimedBy desired observed taken := by
    rw [takes.claims, claimedBy, List.mem_append, List.mem_filterMap]
  refine ⟨taken, ⟨takes.own, ?_, takes.injective⟩, ?_, ?_, ?_⟩
  · intro a first unnamed k takes'
    exact (takes.network a first unnamed k takes').2
  · intro a first unnamed e he name free
    exact takes.least a first unnamed e he name (mt (claims e.key).mp free)
  · rw [compute_add_eq, takes.unmet]
    rfl
  · rw [compute_remove_eq]
    simp only [List.contains_eq_mem, claims]

end Hotplug.Plan
