import Hotplug.Proofs.Pass.Defaults
import Hotplug.Proofs.Pass.Requests
/-!
Passes that end before they have a plan: the key names no pod, the pod uses the host's network or
cannot be read, or the runtime does not tell where it lives. Such a pass sends nothing to the
delegate, writes nothing and tells of nothing but a pod that is turned down. It asks the runtime
only once all the rest is in order. What is logged is not covered.
-/
namespace Hotplug

def Exchange.event? : Exchange → Option (Pod × Event)
  | ⟨.publish pod event, _⟩ => some (pod, event)
  | _ => none

def events (heard : List Exchange) : List (Pod × Event) := heard.filterMap Exchange.event?

namespace Pass

variable {σ : Type} {handle : (e : Effect) → σ → e.Answer × σ} {s : σ} {key ns name : String}
  {pod : Pod} {found : Reading} {heard : List Exchange} {result : Except PassFault Unit}

def shown? (handle : (e : Effect) → σ → e.Answer × σ) (s : σ) (key : String) : Option Pod :=
  (splitNamespacedName key).bind fun (ns, name) => (handle (.findPod ns name) s).1

/-- All that a pass looks at before it asks the runtime is in order. -/
structure Legible (handle : (e : Effect) → σ → e.Answer × σ) (s : σ) (key ns name : String)
    (pod : Pod) (found : Reading) : Prop where
  named : splitNamespacedName key = some (ns, name)
  shown : (handle (.findPod ns name) s).1 = some pod
  own : pod.hostNetworked = false
  desired : pod.desired = .ok found.desired
  observed : pod.observed = .ok found.observed
  uid : pod.uid = some found.uid

def Plans (handle : (e : Effect) → σ → e.Answer × σ) (s : σ) (key : String) : Prop :=
  ∃ ns name pod found place, Legible handle s key ns name pod found ∧
    ((locate found.uid).run handle (handle (.findPod ns name) s).2).1 = .ok place

def rejection (key : String) : Event where
  kind := .interfaceAddRejected
  message := "pod [" ++ key ++ "]: " ++ "will not add interface to host networked pod"

/-- What is published of a pod that a pass does not take care of. -/
def rejections (key : String) : Option Pod → List (Pod × Event)
  | none => []
  | some pod =>
    if pod.hostNetworked && pod.networks.isSome then [(pod, rejection key)] else []

/-- The ways in which a pass ends without a plan, with what is heard of it: each check is made
only if those above it turned out well. -/
inductive Stopped (handle : (e : Effect) → σ → e.Answer × σ) (s : σ) (key : String) :
    List Exchange → Except PassFault Unit → Prop
  | misnamed : splitNamespacedName key = none → Stopped handle s key [] (.error (.invalidKey key))
  | gone {ns name : String} : splitNamespacedName key = some (ns, name) →
    (handle (.findPod ns name) s).1 = none →
    Stopped handle s key [⟨.findPod ns name, none⟩] (.ok ())
  | turnedDown {ns name : String} {pod : Pod} : splitNamespacedName key = some (ns, name) →
    (handle (.findPod ns name) s).1 = some pod → pod.hostNetworked = true →
    Stopped handle s key (⟨.findPod ns name, some pod⟩ ::
      if pod.networks.isSome then [⟨.publish pod (rejection key), ()⟩] else []) (.ok ())
  | illegible {ns name : String} {pod : Pod} {fault : PassFault} :
    splitNamespacedName key = some (ns, name) → (handle (.findPod ns name) s).1 = some pod →
    pod.hostNetworked = false → read key pod = .error fault →
    Stopped handle s key [⟨.findPod ns name, some pod⟩] (.error fault)
  | homeless {ns name : String} {pod : Pod} {found : Reading} {located : List Exchange}
      {fault : PassFault} :
    Legible handle s key ns name pod found → Located found.uid located (.error fault) →
    Stopped handle s key (⟨.findPod ns name, some pod⟩ :: located) (.error fault)

theorem heard_refuse : (refuse key pod).heard handle s =
    if pod.networks.isSome then [⟨.publish pod (rejection key), ()⟩] else [] := by
  unfold refuse
  split <;> rfl

theorem located_of_run (uid : String) :
    Located uid ((locate uid).heard handle s) ((locate uid).run handle s).1 := by
  have obeyed : (locate uid).Obeys Action.recording [] fun place x => Located uid x place :=
    heard_locate fun x place located => located
  exact Action.heard_of_obeys handle s obeyed

/-- A pass that never has a plan ends in one of these ways. -/
theorem stopped_of_unplanned (unplanned : ¬ Plans handle s key) :
    Stopped handle s key ((reconcile key).heard handle s) ((reconcile key).run handle s).1 := by
  unfold reconcile
  cases named : splitNamespacedName key with
  | none => exact .misnamed named
  | some parts =>
    obtain ⟨ns, name⟩ := parts
    simp only [Action.heard_bind, Action.run_bind]
    have asked : (Action.ask (.findPod ns name)).run handle s = handle (.findPod ns name) s := rfl
    have heard : (Action.ask (.findPod ns name)).heard handle s =
        [⟨.findPod ns name, (handle (.findPod ns name) s).1⟩] := rfl
    rw [asked, heard]
    cases shown : (handle (.findPod ns name) s).1 with
    | none => exact .gone named shown
    | some pod =>
      cases own : pod.hostNetworked with
      | true =>
        simp only [own, if_true, Action.heard_bind, Action.run_bind, heard_refuse,
          Action.heard_pure, List.append_nil]
        exact .turnedDown named shown own
      | false =>
        simp only [own, Bool.false_eq_true, if_false, reconcilePod]
        cases reading : read key pod with
        | error fault => exact .illegible named shown own reading
        | ok found =>
          obtain ⟨desired, observed, uid⟩ := read_ok reading
          have legible : Legible handle s key ns name pod found :=
            ⟨named, shown, own, desired, observed, uid⟩
          simp only [Action.heard_bind, Action.run_bind]
          have located : Located found.uid
              ((locate found.uid).heard handle (handle (.findPod ns name) s).2)
              ((locate found.uid).run handle (handle (.findPod ns name) s).2).1 :=
            located_of_run found.uid
          cases place : ((locate found.uid).run handle (handle (.findPod ns name) s).2).1 with
          | ok place' =>
            exact absurd ⟨ns, name, pod, found, place', legible, place⟩ unplanned
          | error fault =>
            rw [place] at located
            simp only [Action.heard_pure, List.append_nil]
            exact .homeless legible located

theorem Stopped.quiet (stopped : Stopped handle s key heard result) : Quiet heard := by
  have nothing : Quiet [] := fun _ none => absurd none List.not_mem_nil
  cases stopped with
  | misnamed _ => exact nothing
  | gone _ _ => exact quiet_found nothing
  | turnedDown _ _ _ =>
    apply quiet_found
    split
    · exact List.forall_mem_singleton.mpr trivial
    · exact nothing
  | illegible _ _ _ _ => exact quiet_found nothing
  | homeless _ located => exact quiet_found located.quiet

theorem Located.asks_runtime {uid : String} {place : Except PassFault (String × String)}
    (located : Located uid heard place) : ∀ x ∈ heard, x.isRuntime = true := by
  have search {heard : List Exchange} {netns : Except RuntimeFault String}
      (searched : Sandbox.Searched uid heard netns) : ∀ x ∈ heard, x.isRuntime = true := by
    cases searched <;> simp [Sandbox.listing, Sandbox.inspection, Exchange.isRuntime]
  have last (listed : Except RuntimeFault Sandbox.ListResponse) :
      ∀ x ∈ [Sandbox.listing uid listed], x.isRuntime = true :=
    List.forall_mem_singleton.mpr rfl
  cases located with
  | homeless searched => exact search searched
  | vanished searched _ => exact List.forall_mem_append.mpr ⟨search searched, last _⟩
  | found searched _ => exact List.forall_mem_append.mpr ⟨search searched, last _⟩

theorem shown?_eq (named : splitNamespacedName key = some (ns, name)) :
    shown? handle s key = (handle (.findPod ns name) s).1 := by
  rw [shown?, named]
  rfl

theorem Stopped.events_eq (stopped : Stopped handle s key heard result) :
    events heard = rejections key (shown? handle s key) := by
  cases stopped with
  | misnamed named =>
    rw [shown?, named]
    rfl
  | gone named unknown =>
    rw [shown?_eq named, unknown]
    rfl
  | @turnedDown ns name pod named shown own =>
    rw [shown?_eq named, shown, rejections, own, Bool.true_and]
    cases pod.networks.isSome <;> rfl
  | @illegible ns name pod _ named shown own _ =>
    rw [shown?_eq named, shown, rejections, own]
    rfl
  | @homeless ns name pod found located fault legible place =>
    rw [shown?_eq legible.named, legible.shown, rejections, legible.own]
    apply List.filterMap_eq_nil_iff.mpr
    refine List.forall_mem_cons.mpr ⟨rfl, ?_⟩
    rintro ⟨e, answer⟩ mem
    have runtime := place.asks_runtime _ mem
    cases e <;> first | rfl | cases runtime

theorem Stopped.asks_no_runtime (stopped : Stopped handle s key heard result)
    (illegible : ¬ ∃ ns name pod found, Legible handle s key ns name pod found) :
    runtimeCalls heard = [] := by
  cases stopped with
  | misnamed _ => rfl
  | gone _ _ => rfl
  | turnedDown _ _ _ => split <;> rfl
  | illegible _ _ _ _ => rfl
  | homeless legible _ => exact absurd ⟨_, _, _, _, legible⟩ illegible

/-- A pass without a plan sends nothing to the delegate and no status, and publishes only that a
pod on the host's network that asks for networks is turned down. It asks nothing of the runtime
unless it could read all that it needs off the pod. -/
theorem unplanned_pass_is_silent {σ : Type} (handle : (e : Effect) → σ → e.Answer × σ) (s : σ)
    (key : String) (unplanned : ¬ Plans handle s key) :
    let heard := (reconcile key).heard handle s
    requests heard = [] ∧ heard.filterMap Exchange.status? = [] ∧
      events heard = rejections key (shown? handle s key) ∧
      ((¬ ∃ ns name pod found, Legible handle s key ns name pod found) →
        runtimeCalls heard = []) := by
  have stopped := stopped_of_unplanned unplanned
  refine ⟨?_, ?_, stopped.events_eq, stopped.asks_no_runtime⟩
  · apply stopped.quiet.tells_none
    rintro ⟨e, answer⟩ still
    cases e <;> first | rfl | cases still
  · apply stopped.quiet.tells_none
    rintro ⟨e, answer⟩ still
    cases e <;> first | rfl | cases still

def sampleRefused : Pod :=
  { samplePod with networks := some "Net1@", uid := none, hostNetworked := true }

theorem sample_pass_is_silent :
    let heard := (reconcile "default/web").heard (Course.sampleServe sampleRefused) ()
    ¬ Plans (Course.sampleServe sampleRefused) () "default/web" ∧ requests heard = [] ∧
      heard.filterMap Exchange.status? = [] ∧
      events heard = [(sampleRefused, { kind := .interfaceAddRejected, message :=
        "pod [default/web]: will not add interface to host networked pod" })] ∧
      runtimeCalls heard = [] := by
  have illegible : ¬ ∃ ns name pod found,
      Legible (Course.sampleServe sampleRefused) () "default/web" ns name pod found := by
    rintro ⟨ns, name, pod, found, legible⟩
    obtain rfl : sampleRefused = pod := Option.some.inj legible.shown
    cases legible.own
  have unplanned : ¬ Plans (Course.sampleServe sampleRefused) () "default/web" := by
    rintro ⟨ns, name, pod, found, place, legible, -⟩
    exact illegible ⟨ns, name, pod, found, legible⟩
  obtain ⟨unasked, unwritten, told, quiet⟩ :=
    unplanned_pass_is_silent (Course.sampleServe sampleRefused) () "default/web" unplanned
  refine ⟨unplanned, unasked, unwritten, told.trans ?_, quiet illegible⟩
  decide +kernel

end Pass

end Hotplug
