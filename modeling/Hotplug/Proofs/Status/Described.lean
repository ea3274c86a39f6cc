import Hotplug.Status
import Hotplug.Proofs.Address.RoundTrip
/-!
The one interface that an entry tells of when a plugin reports several: the first one inside the
pod that has the requested name, or else the first one inside the pod. Its place counts all that
were reported, those on the host among them. How the plugin's answer was read is not covered.
-/
namespace Hotplug

open Address Cni

/-- The first element with the property, and its place in the whole list. -/
structure FirstAt {α : Type} (p : α → Prop) (xs : List α) (place : Nat) (x : α) : Prop where
  found : xs[place]? = some x
  holds : p x
  least : ∀ earlier y, earlier < place → xs[earlier]? = some y → ¬ p y

section
variable {α : Type} {p : α → Prop} {xs : List α} {place other : Nat} {x y : α}

theorem FirstAt.mem (first : FirstAt p xs place x) : x ∈ xs :=
  List.mem_of_getElem? first.found

theorem FirstAt.place_le (first : FirstAt p xs place x) (another : FirstAt p xs other y) :
    place ≤ other := by
  by_contra less
  have before : other < place := by omega
  exact first.least other y before another.found another.holds

theorem FirstAt.unique (first : FirstAt p xs place x) (another : FirstAt p xs other y) :
    (place, x) = (other, y) := by
  have same : place = other := Nat.le_antisymm (first.place_le another) (another.place_le first)
  subst same
  have alike := first.found
  rw [another.found] at alike
  rw [Option.some.inj alike]

theorem firstAt_of_find? {q : α → Bool} (all : ∀ x, q x = true ↔ p x)
    (found : (xs.zipIdx.map Prod.swap).find? (fun y => q y.2) = some (place, x)) :
    FirstAt p xs place x := by
  obtain ⟨holds, i, inside, here, before⟩ := List.find?_eq_some_iff_getElem.mp found
  simp only [List.getElem_map, List.getElem_zipIdx, Nat.zero_add, Prod.swap_prod_mk,
    Prod.mk.injEq] at here
  obtain ⟨rfl, rfl⟩ := here
  constructor
  · simp
  · exact (all _).mp holds
  · intro earlier y less there pass
    have absent := before earlier less
    rw [List.getElem?_eq_some_iff] at there
    obtain ⟨within, rfl⟩ := there
    simp [(all _).mpr pass] at absent

theorem absent_of_find? {q : α → Bool} (all : ∀ x, q x = true ↔ p x)
    (missed : (xs.zipIdx.map Prod.swap).find? (fun y => q y.2) = none) :
    ∀ x ∈ xs, ¬ p x := by
  intro x mem pass
  obtain ⟨k, here⟩ := List.getElem?_of_mem mem
  have listed : (k, x) ∈ xs.zipIdx.map Prod.swap :=
    List.mem_map.mpr ⟨(x, k), List.mem_zipIdx_iff_getElem?.mpr here, rfl⟩
  exact List.find?_eq_none.mp missed _ listed ((all x).mpr pass)

end

namespace Cni

def Interface.InPod (i : Interface) : Prop := i.sandbox ≠ ""

def Interface.IsRequested (requested : String) (i : Interface) : Prop :=
  i.InPod ∧ requested ≠ "" ∧ i.name = requested

/-- What is to be taken of the interfaces that were reported, with its place. -/
inductive Chosen (interfaces : List Interface) (requested : String) :
    Option (Nat × Interface) → Prop
  | requested {place : Nat} {i : Interface} :
    FirstAt (Interface.IsRequested requested) interfaces place i →
    Chosen interfaces requested (some (place, i))
  | first {place : Nat} {i : Interface} :
    (∀ j ∈ interfaces, ¬ j.IsRequested requested) →
    FirstAt Interface.InPod interfaces place i → Chosen interfaces requested (some (place, i))
  | nothing : (∀ i ∈ interfaces, ¬ i.InPod) → Chosen interfaces requested none

variable {interfaces : List Interface} {requested : String} {a b : Option (Nat × Interface)}

theorem Chosen.unique (left : Chosen interfaces requested a)
    (right : Chosen interfaces requested b) : a = b := by
  cases left with
  | requested asked =>
    cases right with
    | requested also => exact congrArg some (asked.unique also)
    | first none _ => exact absurd asked.holds (none _ asked.mem)
    | nothing none => exact absurd asked.holds.1 (none _ asked.mem)
  | first none inside =>
    cases right with
    | requested asked => exact absurd asked.holds (none _ asked.mem)
    | first _ also => exact congrArg some (inside.unique also)
    | nothing none => exact absurd inside.holds (none _ inside.mem)
  | nothing none =>
    cases right with
    | requested asked => exact absurd asked.holds.1 (none _ asked.mem)
    | first _ inside => exact absurd inside.holds (none _ inside.mem)
    | nothing _ => rfl

theorem chosen_sandboxInterface (result : Result) (requested : String) :
    Chosen result.interfaces requested (result.sandboxInterface requested) := by
  have asked (i : Interface) : (!i.sandbox.isEmpty && (!requested.isEmpty && i.name == requested))
      = true ↔ i.IsRequested requested := by
    simp [Interface.IsRequested, Interface.InPod]
  have inside (i : Interface) : (!i.sandbox.isEmpty) = true ↔ i.InPod := by
    simp [Interface.InPod]
  change Chosen _ _ ((((result.interfaces.zipIdx.map Prod.swap).filter fun y =>
    !y.2.sandbox.isEmpty).find? fun y => !requested.isEmpty && y.2.name == requested) <|>
    ((result.interfaces.zipIdx.map Prod.swap).filter fun y => !y.2.sandbox.isEmpty).head?)
  simp only [List.find?_filter, List.head?_filter, ← Bool.and_eq_true, Bool.decide_eq_true]
  cases named : (result.interfaces.zipIdx.map Prod.swap).find? fun y =>
      !y.2.sandbox.isEmpty && (!requested.isEmpty && y.2.name == requested) with
  | some found => exact .requested (firstAt_of_find? asked named)
  | none =>
    have unasked := absent_of_find? asked named
    cases any : (result.interfaces.zipIdx.map Prod.swap).find? fun y => !y.2.sandbox.isEmpty with
    | some found => exact .first unasked (firstAt_of_find? inside any)
    | none => exact .nothing (absent_of_find? inside any)

end Cni

namespace StatusEntry

structure Shows (texts : List String) (ips : List Ip) : Prop where
  written : texts = ips.map (·.text)
  read : texts.map Ip.ofText? = ips.map some

theorem shows_texts (ips : List Ip) : Shows (ips.map (·.text)) ips := by
  constructor
  · rfl
  · rw [List.map_map]
    apply List.map_congr_left
    intro ip _
    exact Ip.ofText_text ip

/-- What the entry tells of an interface is told of the chosen one throughout: an address is its
own if it names that place or no place at all. -/
inductive TellsOf (e : StatusEntry) (result : Cni.Result) (requested : String) :
    Option (Nat × Interface) → Prop
  | inPod {place : Nat} {i : Interface} :
    e.interface = i.name → e.mac = i.mac → e.mtu = i.mtu →
    Shows e.ips ((result.assignments.filter fun a =>
      a.interface = none ∨ a.interface.map (·.toNat) = some place).map (·.address.address)) →
    TellsOf e result requested (some (place, i))
  | onHost : e.interface = requested → e.mac = "" → e.mtu = none →
    Shows e.ips (result.assignments.map (·.address.address)) → TellsOf e result requested none

/-- The gateways of the routes that match every address of their kind, in order. -/
def gatewaysOf (routes : List Route) : List Ip :=
  routes.flatMap fun r => if r.destination.length = 0 then r.gateway.toList else []

variable {name requested : String} {result : Cni.Result}

theorem tellsOf_ofResult : (ofResult name result requested).TellsOf result requested
    (result.sandboxInterface requested) := by
  cases chosen : result.sandboxInterface requested with
  | none =>
    have all : result.assignments.filter (isOwn none) = result.assignments := by
      apply List.filter_eq_self.mpr
      intro a _
      rfl
    apply TellsOf.onHost
    · simp [ofResult, chosen]
    · simp [ofResult, chosen]
    · simp [ofResult, chosen]
    · simp only [ofResult, chosen, all]
      have shown := shows_texts (result.assignments.map (·.address.address))
      rwa [List.map_map] at shown
  | some found =>
    obtain ⟨place, i⟩ := found
    have own : isOwn (some (place, i)) = fun a =>
        decide (a.interface = none ∨ a.interface.map (·.toNat) = some place) := by
      funext a
      cases owner : a.interface with
      | none => simp [isOwn, owner]
      | some owner' =>
        by_cases same : owner'.toNat = place
        · simp [isOwn, owner, same]
        · simp [isOwn, owner, same, Ne.symm same]
    apply TellsOf.inPod
    · simp [ofResult, chosen]
    · simp [ofResult, chosen]
    · simp [ofResult, chosen]
    · simp only [ofResult, chosen, own]
      have shown := shows_texts ((result.assignments.filter fun a =>
        a.interface = none ∨ a.interface.map (·.toNat) = some place).map (·.address.address))
      rwa [List.map_map] at shown

theorem gateways_eq (result : Cni.Result) :
    result.defaultGateways = gatewaysOf result.routes := by
  unfold Cni.Result.defaultGateways gatewaysOf
  induction result.routes with
  | nil => rfl
  | cons r routes ih =>
    rw [List.flatMap_cons, ← ih]
    by_cases all : r.destination.length = 0
    · cases gateway : r.gateway <;> simp [all, gateway]
    · simp [all]

/-- An entry tells of one interface of the plugin's answer: the first one in the pod with the
requested name, else the first one in the pod, and without either of what was requested. -/
theorem ofResult_tells_of_one (name : String) (result : Cni.Result) (requested : String) :
    (∃! chosen, Cni.Chosen result.interfaces requested chosen ∧
      (ofResult name result requested).TellsOf result requested chosen) ∧
    (ofResult name result requested).name = name ∧
    Shows (ofResult name result requested).gateway (gatewaysOf result.routes) := by
  have chosen := chosen_sandboxInterface result requested
  constructor
  · use result.sandboxInterface requested
    constructor
    · exact ⟨chosen, tellsOf_ofResult⟩
    · intro other both
      exact both.1.unique chosen
  · constructor
    · rfl
    · rw [← gateways_eq]
      exact shows_texts result.defaultGateways

def sampleReport : Cni.Result where
  interfaces := [{ name := "veth0" }, { name := "eth1", sandbox := "/n" },
    { name := "eth2", mac := "02:00:00:00:00:02", sandbox := "/n" }]
  assignments := [⟨some 1, ⟨.v4 #v[10, 0, 0, 1], 24, by decide⟩, none⟩,
    ⟨some 2, ⟨.v4 #v[10, 0, 0, 2], 24, by decide⟩, none⟩,
    ⟨none, ⟨.v4 #v[10, 0, 0, 3], 24, by decide⟩, none⟩]

/-- The place of an interface counts the one on the host. -/
example : ofResult "ns1/net1" sampleReport "eth2" =
    { name := "ns1/net1", interface := "eth2", mac := "02:00:00:00:00:02"
      ips := ["10.0.0.2", "10.0.0.3"] } := by
  decide +kernel

end StatusEntry

end Hotplug
