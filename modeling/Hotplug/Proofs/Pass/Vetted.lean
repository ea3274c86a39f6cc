import Hotplug.Proofs.Attachment.Validated
import Hotplug.Proofs.Pass.Exits
import Hotplug.Proofs.Pass.Opposites
/-!
What the delegate is told of addresses. A request to plug an interface in carries what an element
of the annotation asks for, and all of that was checked; a request to unplug one carries nothing.
What the plugins make of it is not covered.
-/
namespace Hotplug

open Delegate

/-- The request carries checked addresses only: those that an element of the annotation asks for,
and to unplug an interface none. -/
structure Vetted (desired : List Attachment) (r : Request) : Prop where
  mac : ∀ given, r.attributes = some given → Attachment.IsHardware given.mac
  ips : ∀ given, r.attributes = some given → ∀ ip ∈ given.ips, Attachment.IsIp ip
  source : r.command = .add → ∃ a ∈ desired,
    r.interface = a.interface ∧ r.attributes = Attributes.of? a
  bare : r.command = .del → r.attributes = none

namespace Plan

theorem removal_bare (e : StatusEntry) : Attributes.of? (removal e) = none := by
  unfold removal
  split <;> rfl

end Plan

namespace Pass

variable {target : Target} {command : Command} {a : Attachment} {heard last : List Exchange}
  {outcome : Except PassFault Response} {wanted desired : List Attachment} {tries : List Try}
  {observed : List StatusEntry} {r : Request}

theorem requests_quiet (quiet : Quiet heard) : requests heard = [] := by
  apply quiet.tells_none
  intro x still
  obtain ⟨e, answer⟩ := x
  cases e with
  | invoke r => exact False.elim still
  | _ => rfl

theorem Asked.request_eq (asked : Asked target command a heard outcome)
    (sent : r ∈ requests heard) : ∃ config, r = request target command a config := by
  cases asked with
  | undefined => cases sent
  | unusable _ => cases sent
  | refused _ => exact ⟨_, List.mem_singleton.mp sent⟩
  | empty _ _ _ => exact ⟨_, List.mem_singleton.mp sent⟩
  | accepted _ _ => exact ⟨_, List.mem_singleton.mp sent⟩

theorem Attempt.request_eq (attempted : Attempt target command a heard outcome)
    (sent : r ∈ requests heard) : ∃ config, r = request target command a config := by
  obtain @⟨asked, _, tried⟩ := attempted
  have silent : requests [told target command a outcome.isOk] = [] := requests_quiet (quiet_told _)
  rw [requests, List.filterMap_append, ← requests, ← requests, silent, List.append_nil] at sent
  exact tried.request_eq sent

theorem UpToFailure.request_eq (all : UpToFailure target command wanted tries)
    (sent : r ∈ requests (tries.flatMap (·.trace))) :
    ∃ a ∈ wanted, ∃ config, r = request target command a config := by
  obtain ⟨x, mem, asked⟩ := List.mem_filterMap.mp sent
  obtain ⟨a, listed, trace, outcome, attempted, own⟩ := all.attempt_of_mem mem
  exact ⟨a, listed, attempted.request_eq (List.mem_filterMap.mpr ⟨x, own, asked⟩)⟩

theorem Carried.request_eq {plan : Plan} {adds dels : List Try} {result : Except PassFault Unit}
    (carried : Carried target observed plan adds dels last heard result)
    (sent : r ∈ requests heard) :
    ∃ a ∈ wantedFor plan r.command, ∃ config, r = request target r.command a config := by
  have silent : requests last = [] := by
    rcases carried.last_cases with rfl | ⟨text, answer, rfl⟩ <;> rfl
  rw [carried.in_order, requests, List.filterMap_append, List.filterMap_append, ← requests,
    ← requests, ← requests, silent, List.append_nil, List.mem_append] at sent
  rcases sent with added | removed
  · obtain ⟨a, mem, config, rfl⟩ := carried.additions.request_eq added
    exact ⟨a, mem, config, rfl⟩
  · obtain ⟨a, mem, config, rfl⟩ := carried.removals.request_eq removed
    exact ⟨a, mem, config, rfl⟩

/-- What is asked for is checked, whoever asks for it. -/
theorem vetted_of_plan (valid : ∀ a ∈ desired, a.Valid)
    (wanted : a ∈ wantedFor (Plan.compute desired observed) command) (config : String) :
    Vetted desired (request target command a config) := by
  cases command with
  | add =>
    have asked : a ∈ desired := Plan.mem_desired_of_add wanted
    have own (given : Attributes) (some : Attributes.of? a = some given) :
        given.mac = a.mac ∧ given.ips = a.ips := by
      unfold Attributes.of? at some
      split at some
      · obtain rfl := Option.some.inj some
        exact ⟨rfl, rfl⟩
      · cases some
    constructor
    · intro given carries
      rw [(own given carries).1]
      exact (valid a asked).mac
    · intro given carries
      rw [(own given carries).2]
      exact (valid a asked).ips
    · intro _
      exact ⟨a, asked, rfl, rfl⟩
    · intro other
      cases other
  | del =>
    obtain ⟨e, -, rfl⟩ := Plan.attached_of_remove wanted
    have bare : (request target .del (Plan.removal e) config).attributes = none :=
      Plan.removal_bare e
    constructor
    · intro given carries
      rw [bare] at carries
      cases carries
    · intro given carries
      rw [bare] at carries
      cases carries
    · intro other
      cases other
    · intro _
      exact bare

theorem Ran.vetted {key : String} (ran : Ran key heard) (sent : r ∈ requests heard) :
    ∃ ns name pod desired, heard.head? = some ⟨.findPod ns name, some pod⟩ ∧
      pod.desired = .ok desired ∧ Vetted desired r := by
  cases ran with
  | idle quiet =>
    rw [requests_quiet quiet] at sent
    cases sent
  | @busy ns name uid netns sandboxId pod located later desired observed adds dels written result
      reading found carried =>
    obtain ⟨wanted, -⟩ := read_ok reading
    have quiet : Quiet (⟨.findPod ns name, some pod⟩ :: located) := quiet_found found.quiet
    rw [← List.cons_append, requests, List.filterMap_append, ← requests, ← requests,
      requests_quiet quiet, List.nil_append] at sent
    obtain ⟨a, mem, config, made⟩ := carried.request_eq sent
    refine ⟨ns, name, pod, desired, rfl, wanted, ?_⟩
    rw [made]
    exact vetted_of_plan (Pod.desired_valid wanted) mem config

section
variable {σ : Type} (handle : (e : Effect) → σ → e.Answer × σ) (s : σ)

theorem shown_of_front {key ns name : String} {found : Option Pod}
    (front : ((reconcile key).heard handle s).head? = some ⟨.findPod ns name, found⟩) :
    shown? handle s key = found := by
  unfold reconcile at front
  unfold shown?
  cases named : splitNamespacedName key with
  | none =>
    rw [named] at front
    cases front
  | some parts =>
    obtain ⟨ns', name'⟩ := parts
    rw [named, Action.heard_bind] at front
    have first : (⟨.findPod ns' name', (handle (.findPod ns' name') s).1⟩ : Exchange) =
        ⟨.findPod ns name, found⟩ := Option.some.inj front
    cases first
    rfl

/-- Whatever the answers are, every request of a pass carries checked addresses, those of an element
of the pod's annotation. If one element has a bad address, there is no request for any of them. -/
theorem requests_vetted (key : String) :
    (∀ r ∈ requests ((reconcile key).heard handle s), ∃ pod desired,
      shown? handle s key = some pod ∧ pod.desired = .ok desired ∧ Vetted desired r) ∧
    ∀ pod raw elements, shown? handle s key = some pod → pod.networks = some raw →
      Attachment.readAll raw = .ok elements → (∃ a ∈ elements, ¬ a.Valid) →
      requests ((reconcile key).heard handle s) = [] := by
  have each : ∀ r ∈ requests ((reconcile key).heard handle s), ∃ pod desired,
      shown? handle s key = some pod ∧ pod.desired = .ok desired ∧ Vetted desired r := by
    intro r sent
    obtain ⟨ns, name, pod, desired, front, wanted, vetted⟩ := (ran_heard handle s key).vetted sent
    exact ⟨pod, desired, shown_of_front handle s front, wanted, vetted⟩
  refine ⟨each, ?_⟩
  intro pod raw elements shown annotated listed bad
  apply List.eq_nil_iff_forall_not_mem.mpr
  intro r sent
  obtain ⟨pod', desired, shown', wanted, -⟩ := each r sent
  obtain rfl := Option.some.inj (shown.symm.trans shown')
  obtain ⟨a, mem, invalid⟩ := bad
  exact invalid (Pod.elements_valid annotated listed wanted a mem)

end

def goodElement : Attachment where
  name := "net1"
  ips := ["10.0.0.7/24"]
  mac := "02:00:00:00:00:01"
  interface := "eth1"

def badElement : Attachment where
  name := "net3"
  ips := ["10.0.0.300"]

def asking (elements : List Attachment) : Pod :=
  { samplePod with networks := some (Json.Value.array (elements.map (·.toJson))).compact }

def askingWorld (elements : List Attachment) : (e : Effect) → Unit → e.Answer × Unit
  | .findPod _ _, s => (some (asking elements), s)
  | e, s => sampleWorld e s

def addressedRequest : Request where
  command := .add
  sandboxId := "s1"
  netns := "/n"
  interface := "eth1"
  podNs := "default"
  podName := "web"
  podUid := "u1"
  config := Text.bytesOf "\x7b\"name\":\"net1\"\x7d"
  attributes := some { ips := ["10.0.0.7/24"], mac := "02:00:00:00:00:01", arguments := none }

/-- One element is plugged in with its addresses, and beside a bad one it is not. -/
theorem sample_requests_vetted :
    (addressedRequest ∈ requests
        ((reconcile "default/web").heard (askingWorld [goodElement]) ()) ∧
      ∃ pod desired, shown? (askingWorld [goodElement]) () "default/web" = some pod ∧
        pod.desired = .ok desired ∧ Vetted desired addressedRequest) ∧
    requests ((reconcile "default/web").heard (askingWorld [goodElement, badElement]) ()) = [] := by
  have sent : addressedRequest ∈ requests
      ((reconcile "default/web").heard (askingWorld [goodElement]) ()) := by
    decide +kernel
  have listed : Attachment.readAll (Json.Value.array
      ([goodElement, badElement].map (·.toJson))).compact = .ok [goodElement, badElement] := by
    decide +kernel
  have invalid : ¬ badElement.Valid := by
    intro valid
    have no_ip : Address.Ip.ofText? "10.0.0.300" = none := by decide +kernel
    have no_network : Address.Network.ofText? "10.0.0.300" = none := by decide +kernel
    rcases valid.ips "10.0.0.300" (List.mem_singleton_self _) with ⟨ip, read⟩ | ⟨network, read⟩
    · rw [no_ip] at read
      cases read
    · rw [no_network] at read
      cases read
  constructor
  · exact ⟨sent, (requests_vetted (askingWorld [goodElement]) () "default/web").1 _ sent⟩
  · exact (requests_vetted (askingWorld [goodElement, badElement]) () "default/web").2 _ _ _ rfl rfl
      listed ⟨badElement, by simp, invalid⟩

end Pass

end Hotplug
