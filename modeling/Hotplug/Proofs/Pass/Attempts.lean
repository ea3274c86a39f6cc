import Hotplug.Pass
import Hotplug.Proofs.Status.Codec
import Hotplug.Proofs.Trace
/-!
What a pass does, in order: it tries what its plan adds and then what its plan removes, each up to
the first failure, tells of every try, and writes down what was achieved. Whether a refused write
is ever made good is not covered.
-/
namespace Hotplug.Pass

open Delegate

inductive Asked (target : Target) (command : Command) (a : Attachment) :
    List Exchange → Except PassFault Response → Prop
  | undefined :
    Asked target command a [⟨.findDefinition (definitionNs target a) a.name, none⟩]
      (.error (.missingDefinition (namespacedName (definitionNs target a) a.name)))
  | unusable {definition : Definition} {fault : DefinitionFault} :
    definition.pluginConfig = .error fault →
    Asked target command a [⟨.findDefinition (definitionNs target a) a.name, some definition⟩]
      (.error (.unusableDefinition fault))
  | refused {definition : Definition} {config : String} {fault : DelegateFault} :
    definition.pluginConfig = .ok config →
    Asked target command a [⟨.findDefinition (definitionNs target a) a.name, some definition⟩,
        ⟨.invoke (request target command a config), .error fault⟩]
      (.error (.failed command a.key fault))
  | empty {definition : Definition} {config : String} {response : Response} :
    definition.pluginConfig = .ok config → command = .add → response.result = none →
    Asked target command a [⟨.findDefinition (definitionNs target a) a.name, some definition⟩,
        ⟨.invoke (request target command a config), .ok response⟩]
      (.error (.failed command a.key .missingResult))
  | accepted {definition : Definition} {config : String} {response : Response} :
    definition.pluginConfig = .ok config → (command = .add → response.result.isSome) →
    Asked target command a [⟨.findDefinition (definitionNs target a) a.name, some definition⟩,
        ⟨.invoke (request target command a config), .ok response⟩]
      (.ok response)

/-- What the event about an attempt has to say: of its kind how the attempt went, and in its
message the pod, the interface and the network, with what was asked of an addition. -/
def report (key : String) (a : Attachment) : Command → Bool → Event
  | .add, true =>
    { kind := .addedInterface
      message := "pod [" ++ key ++ "]: " ++
        ("added interface " ++ a.interface ++ " to network: " ++ a.name ++ Event.attributesText a) }
  | .add, false =>
    { kind := .failedAddingInterface
      message := "pod [" ++ key ++ "]: " ++
        ("failed adding interface " ++ a.interface ++ " to network: " ++ a.name ++
          Event.attributesText a) }
  | .del, true =>
    { kind := .removedInterface
      message := "pod [" ++ key ++ "]: " ++
        ("removed interface " ++ a.interface ++ " from network: " ++ a.name) }
  | .del, false =>
    { kind := .failedRemovingInterface
      message := "pod [" ++ key ++ "]: " ++
        ("failed removing interface " ++ a.interface ++ " from network: " ++ a.name) }

def told (target : Target) (command : Command) (a : Attachment) (succeeded : Bool) : Exchange :=
  ⟨.publish target.pod (report target.key a command succeeded), ()⟩

/-- An attempt at one attachment, with its one event at the end. -/
inductive Attempt (target : Target) (command : Command) (a : Attachment) :
    List Exchange → Except PassFault Response → Prop
  | mk {asked : List Exchange} {outcome : Except PassFault Response} :
    Asked target command a asked outcome →
    Attempt target command a (asked ++ [told target command a outcome.isOk]) outcome

variable {target : Target} {command : Command} {a : Attachment} {t : List Exchange}

theorem announce_eq (succeeded : Bool) : announce target command succeeded a =
    Action.ask (.publish target.pod (report target.key a command succeeded)) := by
  cases command <;> cases succeeded <;> rfl

theorem heard_delegate {post : Except PassFault Response → List Exchange → Prop}
    (all : ∀ x outcome, Asked target command a x outcome → post outcome (t ++ x)) :
    (delegate target command a).Obeys Action.recording t post := by
  rw [delegate, prepare, Action.obeys_bind, Action.obeys_bind]
  apply Action.obeys_heard
  intro found
  cases found with
  | none => exact all _ _ .undefined
  | some definition =>
    simp only [Action.obeys_pure]
    cases usable : definition.pluginConfig with
    | error fault => exact all _ _ (.unusable usable)
    | ok config =>
      simp only [Action.obeys_bind]
      apply Action.obeys_heard
      intro answer
      rw [List.append_assoc]
      cases answer with
      | error fault => exact all _ _ (.refused usable)
      | ok response =>
        cases command with
        | del => exact all _ _ (.accepted usable fun adds => absurd adds (by decide))
        | add =>
          obtain ⟨result⟩ := response
          cases result with
          | none => exact all _ _ (.empty usable rfl rfl)
          | some result => exact all _ _ (.accepted usable fun _ => rfl)

theorem heard_attempt {post : Except PassFault Response → List Exchange → Prop}
    (all : ∀ x outcome, Attempt target command a x outcome → post outcome (t ++ x)) :
    (attempt target command a).Obeys Action.recording t post := by
  rw [attempt, Action.obeys_bind, Action.obeys_unheard, Action.obeys_bind]
  apply heard_delegate
  intro x outcome asked
  have whole := all _ _ (.mk asked)
  rw [← List.append_assoc] at whole
  cases outcome with
  | ok response =>
    simp only [Action.obeys_bind, announce_eq]
    apply Action.obeys_heard
    intro _
    simp only [Action.obeys_unheard, Action.obeys_pure]
    exact whole
  | error fault =>
    simp only [Action.obeys_bind, Action.obeys_unheard, announce_eq]
    apply Action.obeys_heard
    intro _
    exact whole

/-- What is heard of an attempt tells where it ends and what came of it. -/
theorem Attempt.unique {x y u : List Exchange} {outcome other : Except PassFault Response}
    (first : Attempt target command a x outcome) (second : Attempt target command a y other)
    (same : x ++ t = y ++ u) : x = y ∧ outcome = other ∧ t = u := by
  obtain ⟨first⟩ := first
  obtain ⟨second⟩ := second
  cases first <;> cases second <;> simp_all [told]

structure Try where
  attachment : Attachment
  trace : List Exchange
  outcome : Except PassFault Response

namespace Try

def done? (x : Try) : Option Outcome :=
  match x.outcome with
  | .ok response => some ⟨x.attachment, some response⟩
  | .error _ => none

def fault? (x : Try) : Option PassFault :=
  match x.outcome with
  | .ok _ => none
  | .error fault => some fault

end Try

def achieved (tries : List Try) : List Outcome := tries.filterMap Try.done?

def firstFault? (tries : List Try) : Option PassFault := tries.findSome? Try.fault?

/-- One attempt at each attachment, up to and with the first that fails. -/
inductive UpToFailure (target : Target) (command : Command) : List Attachment → List Try → Prop
  | nothing : UpToFailure target command [] []
  | failed {a : Attachment} {more : List Attachment} {x : List Exchange} {fault : PassFault} :
    Attempt target command a x (.error fault) →
    UpToFailure target command (a :: more) [⟨a, x, .error fault⟩]
  | onward {a : Attachment} {more : List Attachment} {x : List Exchange} {response : Response}
      {tries : List Try} :
    Attempt target command a x (.ok response) → UpToFailure target command more tries →
    UpToFailure target command (a :: more) (⟨a, x, .ok response⟩ :: tries)

theorem heard_attemptAll {wanted : List Attachment}
    {post : List Outcome × Option PassFault → List Exchange → Prop}
    (all : ∀ tries, UpToFailure target command wanted tries →
      post (achieved tries, firstFault? tries) (t ++ tries.flatMap (·.trace))) :
    (attemptAll target command wanted).Obeys Action.recording t post := by
  induction wanted generalizing t post with
  | nil =>
    have none := all [] .nothing
    rw [List.flatMap_nil, List.append_nil] at none
    exact none
  | cons a wanted ih =>
    rw [attemptAll, Action.obeys_bind]
    apply heard_attempt
    intro x outcome attempted
    cases outcome with
    | error fault =>
      have stopped := all _ (.failed attempted)
      rw [List.flatMap_singleton] at stopped
      exact stopped
    | ok response =>
      simp only [Action.obeys_bind, Action.obeys_pure]
      apply ih
      intro tries done
      have whole := all _ (.onward attempted done)
      rw [List.flatMap_cons, ← List.append_assoc] at whole
      exact whole

theorem UpToFailure.unique {wanted : List Attachment} {xs ys : List Try} {u : List Exchange}
    (first : UpToFailure target command wanted xs) (second : UpToFailure target command wanted ys)
    (same : xs.flatMap (·.trace) ++ t = ys.flatMap (·.trace) ++ u) : xs = ys ∧ t = u := by
  induction first generalizing ys with
  | nothing =>
    cases second
    exact ⟨rfl, same⟩
  | failed attempted =>
    cases second with
    | failed attempted' =>
      simp only [List.flatMap_singleton] at same
      obtain ⟨rfl, outcome, rest⟩ := attempted.unique attempted' same
      cases outcome
      exact ⟨rfl, rest⟩
    | onward attempted' _ =>
      rw [List.flatMap_cons, List.flatMap_cons, List.append_assoc, List.append_assoc] at same
      obtain ⟨-, outcome, -⟩ := attempted.unique attempted' same
      cases outcome
  | onward attempted _ ih =>
    cases second with
    | failed attempted' =>
      rw [List.flatMap_cons, List.flatMap_cons, List.append_assoc, List.append_assoc] at same
      obtain ⟨-, outcome, -⟩ := attempted.unique attempted' same
      cases outcome
    | onward attempted' later =>
      rw [List.flatMap_cons, List.flatMap_cons, List.append_assoc, List.append_assoc] at same
      obtain ⟨rfl, outcome, onward⟩ := attempted.unique attempted' same
      obtain ⟨rfl, rest⟩ := ih later onward
      cases outcome
      exact ⟨rfl, rest⟩

/-- One write, of a status that tells the entries but for the reals in a device info. -/
def Writes (target : Target) (next : List StatusEntry) (x : List Exchange) : Prop :=
  ∃ (text : String) (answer : Except Api.Refusal Unit) (found : List StatusEntry),
    x = [⟨.writeStatus target.ns target.name text, answer⟩] ∧
      Status.parse text = .ok found ∧
      found.map StatusEntry.rough = next.map StatusEntry.rough

/-- What is heard of a plan that is carried out, and what comes of it. -/
structure Carried (target : Target) (observed : List StatusEntry) (plan : Plan)
    (adds dels : List Try) (written : List Exchange) (heard : List Exchange)
    (result : Except PassFault Unit) : Prop where
  in_order : heard = adds.flatMap (·.trace) ++ (dels.flatMap (·.trace) ++ written)
  additions : UpToFailure target .add plan.add adds
  removals : UpToFailure target .del plan.remove dels
  unwritten : achieved (adds ++ dels) = [] → written = []
  written : achieved (adds ++ dels) ≠ [] →
    Writes target (Status.merge observed (achieved adds) ((achieved dels).map (·.attachment)))
      written
  result_eq : result = match firstFault? (adds ++ dels) with
    | some fault => .error fault
    | none => .ok ()

section
variable {observed : List StatusEntry} {added removed : List Outcome}

theorem heard_persist (sound : ∀ e ∈ observed, e.Sound Status.deviceDepth)
    {post : Unit → List Exchange → Prop}
    (all : ∀ written, (added ++ removed = [] → written = []) →
      (added ++ removed ≠ [] →
        Writes target (Status.merge observed added (removed.map (·.attachment))) written) →
      post () (t ++ written)) :
    (persist target observed added removed).Obeys Action.recording t post := by
  unfold persist
  by_cases nothing : added ++ removed = []
  · obtain ⟨rfl, rfl⟩ := List.append_eq_nil_iff.mp nothing
    have idle := all [] (fun _ => rfl) (fun some => absurd rfl some)
    rw [List.append_nil] at idle
    exact idle
  · have some : (!added.isEmpty || !removed.isEmpty) = true := by
      cases added <;> cases removed <;> simp_all
    simp only [some, if_true, Action.obeys_bind]
    apply Action.obeys_heard
    intro answer
    obtain ⟨found, parsed, same⟩ := Status.parse_written
      (Status.merge_sound sound added (removed.map (·.attachment)))
    have whole := all _ (fun none => absurd none nothing)
      (fun _ => ⟨_, answer, found, rfl, parsed, same⟩)
    cases answer with
    | ok _ => exact whole
    | error refusal =>
      simp only [Action.obeys_unheard]
      exact whole

theorem heard_execute {plan : Plan} (sound : ∀ e ∈ observed, e.Sound Status.deviceDepth) :
    (execute target observed plan).Obeys Action.recording t fun result u =>
      ∃ adds dels written heard, u = t ++ heard ∧
        Carried target observed plan adds dels written heard result := by
  rw [execute, Action.obeys_bind]
  apply heard_attemptAll
  intro adds additions
  simp only [Action.obeys_bind]
  apply heard_attemptAll
  intro dels removals
  apply heard_persist sound
  intro written unwritten writes
  have split : achieved (adds ++ dels) = achieved adds ++ achieved dels :=
    List.filterMap_append
  refine ⟨adds, dels, written, _, ?_, ⟨rfl, additions, removals, ?_, ?_, ?_⟩⟩
  · rw [List.append_assoc, List.append_assoc]
  · rw [split]
    exact unwritten
  · rw [split]
    exact writes
  · have first : firstFault? (adds ++ dels) = (firstFault? adds).or (firstFault? dels) :=
      List.findSome?_append
    rw [first]
    cases firstFault? adds <;> cases firstFault? dels <;> rfl

/-- Carrying out nothing is like carrying out an empty plan. -/
theorem heard_planned {plan : Plan} (sound : ∀ e ∈ observed, e.Sound Status.deviceDepth) :
    (if plan.isEmpty then pure (.ok ()) else execute target observed plan).Obeys
      Action.recording t fun result u => ∃ adds dels written heard, u = t ++ heard ∧
        Carried target observed plan adds dels written heard result := by
  split
  · rename_i empty
    obtain ⟨add, remove⟩ := plan
    simp only [Plan.isEmpty, Bool.and_eq_true, List.isEmpty_iff] at empty
    obtain ⟨rfl, rfl⟩ := empty
    exact ⟨[], [], [], [], (List.append_nil t).symm, rfl, .nothing, .nothing, fun _ => rfl,
      fun some => absurd rfl some, rfl⟩
  · exact heard_execute sound

end

/-- A pass over a pod that it can read and find does in order what its plan says, up to the
first failure of either kind, and fails with the first failure. -/
theorem reconcile_in_order {σ : Type} (handle : (e : Effect) → σ → e.Answer × σ) (s : σ)
    {key ns name : String} (split : splitNamespacedName key = some (ns, name)) {pod : Pod}
    (found : (handle (.findPod ns name) s).1 = some pod) (own : pod.hostNetworked = false)
    {desired : List Attachment} (wanted : pod.desired = .ok desired)
    {observed : List StatusEntry} (present : pod.observed = .ok observed)
    {uid : String} (known : pod.uid = some uid) {netns sandboxId : String}
    (resolved : ((locate uid).run handle (handle (.findPod ns name) s).2).1 =
      .ok (netns, sandboxId)) :
    ∃ adds dels written heard,
      (reconcile key).heard handle s = ⟨.findPod ns name, some pod⟩ ::
        ((locate uid).heard handle (handle (.findPod ns name) s).2 ++ heard) ∧
      Carried ⟨pod, key, ns, name, uid, sandboxId, netns⟩ observed
        (Plan.compute desired observed) adds dels written heard
        ((reconcile key).run handle s).1 := by
  have reading : read key pod = .ok ⟨desired, observed, uid⟩ := by
    rw [read, wanted, present, known]
    rfl
  unfold reconcile
  rw [split]
  simp only [Action.heard_bind, Action.run_bind]
  have asked : (Action.ask (.findPod ns name)).run handle s = handle (.findPod ns name) s := rfl
  have heard : (Action.ask (.findPod ns name)).heard handle s =
      [⟨.findPod ns name, (handle (.findPod ns name) s).1⟩] := rfl
  rw [asked, heard]
  generalize handle (.findPod ns name) s = answered at found resolved ⊢
  obtain ⟨answer, after⟩ := answered
  dsimp only at found resolved ⊢
  subst found
  simp only [own, Bool.false_eq_true, if_false, reconcilePod, reading, Action.heard_bind,
    Action.run_bind]
  rw [resolved]
  obtain ⟨adds, dels, written, heard, eq, carried⟩ := Action.heard_of_obeys handle
    ((locate uid).run handle after).2 (heard_planned (Pod.observed_sound present))
  rw [List.nil_append, List.nil_append] at eq
  rw [eq]
  exact ⟨adds, dels, written, heard, rfl, carried⟩

def samplePod : Pod where
  ns := some "default"
  name := some "web"
  uid := some "u1"
  networks := some "net1@eth1,net2@eth2,net3@eth3"
  status := some "[\x7b\"name\": \"default/old\", \"interface\": \"eth9\"\x7d]"

def sampleInfo : String :=
  "\x7b\"runtimeSpec\": \x7b\"linux\": \x7b\"namespaces\": " ++
    "[\x7b\"type\": \"network\", \"path\": \"/n\"\x7d]\x7d\x7d\x7d"

def sampleWorld : (e : Effect) → Unit → e.Answer × Unit
  | .findPod _ _, s => (some samplePod, s)
  | .findDefinition ns name, s =>
    (if name = "net2" then none else some { ns, name, config := some "\x7b\x7d" }, s)
  | .listSandboxes _, s => (.ok { items := [{ id := "s1" }] }, s)
  | .sandboxStatus _, s => (.ok { info := [("info", sampleInfo)] }, s)
  | .invoke request, s =>
    (.ok { result := some { interfaces := [{ name := request.interface, sandbox := "/n" }] } }, s)
  | .publish _ _, s => ((), s)
  | .writeStatus _ _ _, s => (.ok (), s)
  | .log _, s => ((), s)

def sampleTarget : Target := ⟨samplePod, "default/web", "default", "web", "u1", "s1", "/n"⟩

def sampleNet (number : String) : Attachment :=
  { ns := "default", name := "net" ++ number, interface := "eth" ++ number }

def sampleOld : Attachment := { ns := "default", name := "old", interface := "eth9" }

def sampleDefinition (name : String) : Definition :=
  { ns := "default", name, config := some "\x7b\x7d" }

def sampleAnswer (interface : String) : Response :=
  { result := some { interfaces := [{ name := interface, sandbox := "/n" }] } }

def sampleRequest (command : Command) (interface config : String) : Request where
  command := command
  sandboxId := "s1"
  netns := "/n"
  interface := interface
  podNs := "default"
  podName := "web"
  podUid := "u1"
  config := Text.bytesOf config
  attributes := none

def sampleAdds : List Try := [
  { attachment := sampleNet "1"
    trace := [
      ⟨.findDefinition "default" "net1", some (sampleDefinition "net1")⟩,
      ⟨.invoke (sampleRequest .add "eth1" "\x7b\"name\":\"net1\"\x7d"),
        .ok (sampleAnswer "eth1")⟩,
      ⟨.publish samplePod { kind := .addedInterface, message :=
        "pod [default/web]: added interface eth1 to network: net1" }, ()⟩]
    outcome := .ok (sampleAnswer "eth1") },
  { attachment := sampleNet "2"
    trace := [
      ⟨.findDefinition "default" "net2", none⟩,
      ⟨.publish samplePod { kind := .failedAddingInterface, message :=
        "pod [default/web]: failed adding interface eth2 to network: net2" }, ()⟩]
    outcome := .error (.missingDefinition "default/net2") }]

def sampleDels : List Try := [
  { attachment := sampleOld
    trace := [
      ⟨.findDefinition "default" "old", some (sampleDefinition "old")⟩,
      ⟨.invoke (sampleRequest .del "eth9" "\x7b\"name\":\"old\"\x7d"),
        .ok (sampleAnswer "eth9")⟩,
      ⟨.publish samplePod { kind := .removedInterface, message :=
        "pod [default/web]: removed interface eth9 from network: old" }, ()⟩]
    outcome := .ok (sampleAnswer "eth9") }]

def sampleWritten : List Exchange := [⟨.writeStatus "default" "web"
  "[\x7b\n    \"name\": \"default/net1\",\n    \"interface\": \"eth1\",\n    \"dns\": \x7b\x7d\n\x7d]", .ok ()⟩]

def sampleHeard : List Exchange :=
  sampleAdds.flatMap (·.trace) ++ (sampleDels.flatMap (·.trace) ++ sampleWritten)

theorem upToFailure_sampleAdds : UpToFailure sampleTarget .add
    [sampleNet "1", sampleNet "2", sampleNet "3"] sampleAdds := by
  have usable : (sampleDefinition "net1").pluginConfig = .ok "\x7b\"name\":\"net1\"\x7d" := by
    decide +kernel
  exact .onward (.mk (.accepted usable fun _ => rfl)) (.failed (.mk .undefined))

theorem upToFailure_sampleDels : UpToFailure sampleTarget .del [sampleOld] sampleDels := by
  have usable : (sampleDefinition "old").pluginConfig = .ok "\x7b\"name\":\"old\"\x7d" := by
    decide +kernel
  exact .onward (.mk (.accepted usable fun _ => rfl)) .nothing

def sampleDesired : List Attachment := [sampleNet "1", sampleNet "2", sampleNet "3"]

def sampleObserved : List StatusEntry := [{ name := "default/old", interface := "eth9" }]

/-- The second addition fails, and the removal is tried all the same. -/
theorem sample_pass_in_order :
    (reconcile "default/web").heard sampleWorld () =
      ⟨.findPod "default" "web", some samplePod⟩ ::
        ((locate "u1").heard sampleWorld () ++ sampleHeard) ∧
    Carried sampleTarget sampleObserved (Plan.compute sampleDesired sampleObserved)
      sampleAdds sampleDels sampleWritten sampleHeard
      ((reconcile "default/web").run sampleWorld ()).1 ∧
    ((reconcile "default/web").run sampleWorld ()).1 =
      .error (.missingDefinition "default/net2") := by
  have split : splitNamespacedName "default/web" = some ("default", "web") := by decide
  have wanted : samplePod.desired = .ok sampleDesired := by decide +kernel
  have present : samplePod.observed = .ok sampleObserved := by decide +kernel
  have resolved : ((locate "u1").run sampleWorld ()).1 = .ok ("/n", "s1") := by decide +kernel
  obtain ⟨adds, dels, written, heard, whole, carried⟩ :=
    reconcile_in_order sampleWorld () split rfl rfl wanted present rfl resolved
  have concrete : (reconcile "default/web").heard sampleWorld () =
      ⟨.findPod "default" "web", some samplePod⟩ ::
        ((locate "u1").heard sampleWorld () ++ sampleHeard) := by decide +kernel
  have plan : Plan.compute sampleDesired sampleObserved =
      { add := sampleDesired, remove := [sampleOld] } := by decide +kernel
  obtain rfl : sampleHeard = heard :=
    List.append_cancel_left (List.cons.inj (concrete.symm.trans whole)).2
  have additions := carried.additions
  have removals := carried.removals
  rw [plan] at additions removals
  obtain ⟨rfl, rest⟩ := upToFailure_sampleAdds.unique additions carried.in_order
  obtain ⟨rfl, rfl⟩ := upToFailure_sampleDels.unique removals rest
  exact ⟨whole, carried, by decide +kernel⟩

end Hotplug.Pass
