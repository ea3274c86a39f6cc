import Hotplug.Proofs.Pass.Deeds
/-!
Where the delegate is sent: the requests of a pass carry the network namespace of the sandbox that
the runtime named at first, and the sandbox that it named last. Whether a request still fits the
sandbox when the delegate gets it is not covered.
-/
namespace Hotplug

open Delegate Sandbox

namespace Exchange

def request? : Exchange → Option Request
  | ⟨.invoke request, _⟩ => some request
  | _ => none

def isRuntime : Exchange → Bool
  | ⟨.listSandboxes _, _⟩ => true
  | ⟨.sandboxStatus _, _⟩ => true
  | _ => false

def netns? : Exchange → Option (String × String)
  | ⟨.sandboxStatus request, answer⟩ =>
    (answer >>= netnsIn request.id).toOption.map (request.id, ·)
  | _ => none

end Exchange

def requests (heard : List Exchange) : List Request := heard.filterMap Exchange.request?

def runtimeCalls (heard : List Exchange) : List Exchange := heard.filter (·.isRuntime)

/-- The runtime told the network namespace in the status of the sandbox. -/
def Reported (heard : List Exchange) (sandbox netns : String) : Prop :=
  (sandbox, netns) ∈ heard.filterMap Exchange.netns?

instance (heard : List Exchange) (sandbox netns : String) :
    Decidable (Reported heard sandbox netns) :=
  inferInstanceAs (Decidable ((sandbox, netns) ∈ heard.filterMap Exchange.netns?))

namespace Pass

def Target.Asks (target : Target) : Effect → Prop
  | .findDefinition _ _ => True
  | .invoke r => ∃ command a config, r = request target command a config
  | .publish pod _ => pod = target.pod
  | .writeStatus ns name _ => ns = target.ns ∧ name = target.name
  | _ => False

variable {target : Target} {command : Command} {a : Attachment} {heard last : List Exchange}
  {outcome : Except PassFault Response} {wanted : List Attachment} {tries : List Try}
  {x : Exchange}

theorem Attempt.asks (attempted : Attempt target command a heard outcome) :
    ∀ x ∈ heard, target.Asks x.effect := by
  obtain ⟨asked⟩ := attempted
  cases asked <;> simp [Target.Asks, told]

theorem UpToFailure.asks (all : UpToFailure target command wanted tries) :
    ∀ x ∈ tries.flatMap (·.trace), target.Asks x.effect := by
  intro x mem
  obtain ⟨a, -, trace, outcome, attempted, own⟩ := all.attempt_of_mem mem
  exact attempted.asks x own

theorem Carried.asks {observed : List StatusEntry} {plan : Plan} {adds dels : List Try}
    {result : Except PassFault Unit}
    (carried : Carried target observed plan adds dels last heard result) :
    ∀ x ∈ heard, target.Asks x.effect := by
  rw [carried.in_order]
  refine List.forall_mem_append.mpr ⟨carried.additions.asks, ?_⟩
  refine List.forall_mem_append.mpr ⟨carried.removals.asks, ?_⟩
  rcases carried.last_cases with rfl | ⟨text, answer, rfl⟩ <;> simp [Target.Asks]

theorem Carried.asks_no_runtime {observed : List StatusEntry} {plan : Plan} {adds dels : List Try}
    {result : Except PassFault Unit}
    (carried : Carried target observed plan adds dels last heard result) :
    runtimeCalls heard = [] := by
  apply List.filter_eq_nil_iff.mpr
  intro x mem
  obtain ⟨e, answer⟩ := x
  have asks := carried.asks _ mem
  cases e <;> first | exact False.elim asks | simp [Exchange.isRuntime]

/-- The three steps by which a pass locates its pod are all that it asks of the runtime, and its
requests carry what they found. -/
theorem Passed.located_steps (passed : Passed heard) {r : Request} (sent : r ∈ requests heard) :
    ∃ first sandbox status second,
      runtimeCalls heard =
        [listing r.podUid first, inspection sandbox status, listing r.podUid second] ∧
      first >>= only r.podUid = .ok sandbox ∧ status >>= netnsIn sandbox = .ok r.netns ∧
      second >>= only r.podUid = .ok r.sandboxId := by
  obtain ⟨x, mem, asked⟩ := List.mem_filterMap.mp sent
  obtain ⟨e, answer⟩ := x
  cases e <;> cases asked
  have loud : ¬ (Effect.invoke r).IsQuiet := id
  cases passed with
  | idle quiet => exact absurd (quiet _ mem) loud
  | @busy ns name pod before later _ _ target _ _ _ _ located _ _ carried =>
    obtain ⟨command, a, config, rfl⟩ := carried.asks _ (mem_later_of_loud located.quiet loud mem)
    obtain ⟨first, sandbox, status, second, rfl, named, path, last⟩ := located.steps
    refine ⟨first, sandbox, status, second, ?_, named, path, last⟩
    have calls : runtimeCalls (⟨.findPod ns name, some pod⟩ ::
        ([listing target.uid first, inspection sandbox status, listing target.uid second] ++
          later)) =
        [listing target.uid first, inspection sandbox status, listing target.uid second] ++
          runtimeCalls later := rfl
    rw [calls, carried.asks_no_runtime]
    rfl

end Pass

theorem reported_runtimeCalls {heard : List Exchange} {sandbox netns : String} :
    Reported (runtimeCalls heard) sandbox netns ↔ Reported heard sandbox netns := by
  unfold Reported runtimeCalls
  rw [List.filterMap_filter]
  have same (x : Exchange) : (if x.isRuntime then x.netns? else none) = x.netns? := by
    obtain ⟨e, answer⟩ := x
    cases e <;> rfl
  simp only [same]

theorem reported_steps {uid sandbox netns : String}
    {first second : Except RuntimeFault ListResponse} {status : Except RuntimeFault StatusResponse}
    (path : status >>= netnsIn sandbox = .ok netns) (other : String) :
    Reported [listing uid first, inspection sandbox status, listing uid second] other netns ↔
      sandbox = other := by
  have own : (inspection sandbox status).netns? = some (sandbox, netns) := by
    simp only [inspection, Exchange.netns?, path]
    rfl
  have told : [listing uid first, inspection sandbox status, listing uid second].filterMap
      Exchange.netns? = [(sandbox, netns)] := by
    simp only [List.filterMap_cons, own]
    rfl
  rw [Reported, told, List.mem_singleton, Prod.mk.injEq, and_iff_left rfl]
  exact eq_comm

/-- Every request of a pass carries the sandbox that the last listing named, and the network
namespace of the sandbox that the first one named. These belong together exactly if the two
listings named the same sandbox. -/
theorem requests_located {σ : Type} (handle : (e : Effect) → σ → e.Answer × σ) (s : σ)
    {key : String} {heard : List Exchange} (pass : (Pass.reconcile key).heard handle s = heard)
    {r : Request} (sent : r ∈ requests heard) :
    ∃ first sandbox status second,
      runtimeCalls heard =
        [listing r.podUid first, inspection sandbox status, listing r.podUid second] ∧
      first >>= only r.podUid = .ok sandbox ∧ status >>= netnsIn sandbox = .ok r.netns ∧
      second >>= only r.podUid = .ok r.sandboxId ∧
      (Reported heard r.sandboxId r.netns ↔ sandbox = r.sandboxId) := by
  have passed := Action.heard_of_obeys handle s (Pass.passed_reconcile key)
  rw [List.nil_append, pass] at passed
  obtain ⟨first, sandbox, status, second, calls, named, path, last⟩ := passed.located_steps sent
  refine ⟨first, sandbox, status, second, calls, named, path, last, ?_⟩
  rw [← reported_runtimeCalls, calls]
  exact reported_steps path r.sandboxId

def sampleSent : Request where
  command := .add
  sandboxId := "s1"
  netns := "/n"
  interface := "eth1"
  podNs := "default"
  podName := "web"
  podUid := "u1"
  config := Text.bytesOf "\x7b\"name\":\"net1\"\x7d"
  attributes := none

theorem sample_requests_located : ∃ first sandbox status second,
    runtimeCalls ((Pass.reconcile "default/web").heard Pass.sampleWorld ()) =
      [listing "u1" first, inspection sandbox status, listing "u1" second] ∧
    first >>= only "u1" = .ok sandbox ∧ status >>= netnsIn sandbox = .ok "/n" ∧
    second >>= only "u1" = .ok "s1" ∧
    (Reported ((Pass.reconcile "default/web").heard Pass.sampleWorld ()) "s1" "/n" ↔
      sandbox = "s1") := by
  have sent : sampleSent ∈
      requests ((Pass.reconcile "default/web").heard Pass.sampleWorld ()) := by
    decide +kernel
  exact requests_located Pass.sampleWorld () rfl sent

def ownInfo (sandbox : String) : String :=
  "\x7b\"runtimeSpec\": \x7b\"linux\": \x7b\"namespaces\": " ++
    "[\x7b\"type\": \"network\", \"path\": \"/" ++ sandbox ++ "\"\x7d]\x7d\x7d\x7d"

/-- A world in which the pod gets another sandbox as soon as its first one was listed. -/
def restartingWorld : (e : Effect) → Bool → e.Answer × Bool
  | .listSandboxes _, restarted =>
    (.ok { items := [{ id := if restarted then "s2" else "s1" }] }, true)
  | .sandboxStatus request, restarted => (.ok { info := [("info", ownInfo request.id)] }, restarted)
  | e, restarted => ((Pass.sampleWorld e ()).1, restarted)

/-- A request that names the new sandbox and the network namespace of the old one. -/
theorem restarted_sandbox_unreported :
    ∃ r ∈ requests ((Pass.reconcile "default/web").heard restartingWorld false),
      (r.sandboxId = "s2" ∧ r.netns = "/s1") ∧
        ¬ Reported ((Pass.reconcile "default/web").heard restartingWorld false)
          r.sandboxId r.netns := by
  decide +kernel

end Hotplug
