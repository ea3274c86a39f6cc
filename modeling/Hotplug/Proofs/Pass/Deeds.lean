import Hotplug.Proofs.Pass.Attempts
import Hotplug.Proofs.Pass.Location
import Hotplug.Proofs.Pass.Plugging
/-!
What a pass got done, read off what was heard of it: the answers that the delegate gave and that
were accepted belong to the first attachments of the plan, in their order. Attempts that failed
leave nothing here.
-/
namespace Hotplug

open Delegate

namespace Exchange

/-- An answer that the delegate gave to such a command and that was accepted. -/
def accepted? (command : Command) : Exchange → Option Response
  | ⟨.invoke request, answer⟩ =>
    if request.command = command then (answer >>= Pass.accept command).toOption else none
  | _ => none

def wrote? : Exchange → Option String
  | ⟨.writeStatus _ _ status, .ok _⟩ => some status
  | _ => none

end Exchange

def Effect.IsQuiet : Effect → Prop
  | .invoke _ => False
  | .writeStatus _ _ _ => False
  | _ => True

def Quiet (heard : List Exchange) : Prop := ∀ x ∈ heard, x.effect.IsQuiet

def Effect.IsWrite : Effect → Prop
  | .writeStatus _ _ _ => True
  | _ => False

/-- The attachments that an accepted answer was given for, in their order. -/
def outcomes (command : Command) (wanted : List Attachment) (heard : List Exchange) :
    List Outcome :=
  (wanted.zip (heard.filterMap (Exchange.accepted? command))).map fun (a, r) => ⟨a, some r⟩

/-- The status that was written last, or else the one that was there. -/
def written (status : Option String) (heard : List Exchange) : Option String :=
  (heard.filterMap Exchange.wrote?).getLast?.or status

namespace Quiet

variable {heard : List Exchange} {command : Command}

theorem tells_none {β : Type} {tells : Exchange → Option β} (quiet : Quiet heard)
    (only : ∀ x, x.effect.IsQuiet → tells x = none) : heard.filterMap tells = [] :=
  List.filterMap_eq_nil_iff.mpr fun x mem => only x (quiet x mem)

theorem accepted (quiet : Quiet heard) : heard.filterMap (Exchange.accepted? command) = [] := by
  apply quiet.tells_none
  rintro ⟨e, answer⟩ still
  cases e <;> first | rfl | cases still

theorem wrote (quiet : Quiet heard) : heard.filterMap Exchange.wrote? = [] := by
  apply quiet.tells_none
  rintro ⟨e, answer⟩ still
  cases e <;> first | rfl | cases still

theorem outcomes_behind (quiet : Quiet heard) (wanted : List Attachment)
    (later : List Exchange) :
    outcomes command wanted (heard ++ later) = outcomes command wanted later := by
  rw [outcomes, List.filterMap_append, quiet.accepted, List.nil_append, ← outcomes]

end Quiet

namespace Pass

variable {target : Target} {command other : Command} {a : Attachment} {heard : List Exchange}
  {outcome : Except PassFault Response} {wanted : List Attachment} {tries : List Try}

theorem answers_of_request (ns name : String) (definition : Option Definition) (config : String)
    (answer : Except DelegateFault Response) :
    [Exchange.mk (.findDefinition ns name) definition,
        ⟨.invoke (request target command a config), answer⟩].filterMap
          (Exchange.accepted? command) =
      (answer >>= accept command).toOption.toList := by
  have own : Exchange.accepted? command ⟨.invoke (request target command a config), answer⟩ =
      (answer >>= accept command).toOption := if_pos rfl
  have none : Exchange.accepted? command ⟨.findDefinition ns name, definition⟩ = none := rfl
  rw [List.filterMap_cons_none none, List.filterMap_cons, own]
  cases (answer >>= accept command).toOption <;> rfl

theorem Asked.answers (asked : Asked target command a heard outcome) :
    heard.filterMap (Exchange.accepted? command) = outcome.toOption.toList := by
  cases asked with
  | undefined => rfl
  | unusable _ => rfl
  | refused _ => exact answers_of_request ..
  | @empty _ _ response _ adds bare =>
    subst adds
    have none : accept .add response = .error .missingResult := by
      simp [accept, Response.requireResult, bare]
    refine (answers_of_request ..).trans ?_
    show (accept .add response).toOption.toList = _
    rw [none]
    rfl
  | @accepted _ _ response _ full =>
    have all : accept command response = .ok response := by
      cases command with
      | del => rfl
      | add =>
        obtain ⟨result, some⟩ := Option.isSome_iff_exists.mp (full rfl)
        simp [accept, Response.requireResult, some]
    refine (answers_of_request ..).trans ?_
    show (accept command response).toOption.toList = _
    rw [all]
    rfl

theorem Asked.answers_other (asked : Asked target command a heard outcome)
    (ne : command ≠ other) : heard.filterMap (Exchange.accepted? other) = [] := by
  cases asked <;> simp [Exchange.accepted?, request, ne]

theorem quiet_told (succeeded : Bool) : Quiet [told target command a succeeded] := by
  intro x mem
  obtain rfl := List.mem_singleton.mp mem
  trivial

theorem Attempt.answers (attempted : Attempt target command a heard outcome) :
    heard.filterMap (Exchange.accepted? command) = outcome.toOption.toList := by
  obtain ⟨asked⟩ := attempted
  rw [List.filterMap_append, asked.answers, (quiet_told _).accepted, List.append_nil]

theorem Attempt.answers_other (attempted : Attempt target command a heard outcome)
    (ne : command ≠ other) : heard.filterMap (Exchange.accepted? other) = [] := by
  obtain ⟨asked⟩ := attempted
  rw [List.filterMap_append, asked.answers_other ne, (quiet_told _).accepted, List.append_nil]

theorem Attempt.no_write (attempted : Attempt target command a heard outcome) :
    ∀ x ∈ heard, ¬ x.effect.IsWrite := by
  obtain ⟨asked⟩ := attempted
  cases asked <;> simp [Effect.IsWrite, told]

theorem UpToFailure.tells_none {β : Type} {tells : Exchange → Option β}
    (all : UpToFailure target command wanted tries)
    (each : ∀ a x outcome, Attempt target command a x outcome → x.filterMap tells = []) :
    (tries.flatMap (·.trace)).filterMap tells = [] := by
  induction all with
  | nothing => rfl
  | failed attempted => simpa using each _ _ _ attempted
  | onward attempted _ ih =>
    rw [List.flatMap_cons, List.filterMap_append, each _ _ _ attempted, ih]
    rfl

theorem UpToFailure.answers_other (all : UpToFailure target command wanted tries)
    (ne : command ≠ other) :
    (tries.flatMap (·.trace)).filterMap (Exchange.accepted? other) = [] :=
  all.tells_none fun _ _ _ attempted => attempted.answers_other ne

theorem UpToFailure.attempt_of_mem (all : UpToFailure target command wanted tries) {x : Exchange}
    (mem : x ∈ tries.flatMap (·.trace)) :
    ∃ a ∈ wanted, ∃ trace outcome, Attempt target command a trace outcome ∧ x ∈ trace := by
  induction all with
  | nothing => cases mem
  | @failed a more trace fault attempted =>
    rw [List.flatMap_singleton] at mem
    exact ⟨a, List.mem_cons_self, trace, _, attempted, mem⟩
  | @onward a more trace response tries attempted _ ih =>
    rw [List.flatMap_cons, List.mem_append] at mem
    rcases mem with own | later
    · exact ⟨a, List.mem_cons_self, trace, _, attempted, own⟩
    · obtain ⟨b, wanted, found⟩ := ih later
      exact ⟨b, List.mem_cons_of_mem a wanted, found⟩

theorem UpToFailure.no_write (all : UpToFailure target command wanted tries) :
    ∀ x ∈ tries.flatMap (·.trace), ¬ x.effect.IsWrite := by
  intro x mem
  obtain ⟨a, -, trace, outcome, attempted, own⟩ := all.attempt_of_mem mem
  exact attempted.no_write x own

/-- The answers that were accepted are those of the attachments that were tried first. -/
theorem UpToFailure.outcomes_eq (all : UpToFailure target command wanted tries) :
    outcomes command wanted (tries.flatMap (·.trace)) = achieved tries := by
  unfold outcomes
  induction all with
  | nothing => rfl
  | failed attempted =>
    rw [List.flatMap_singleton, attempted.answers]
    simp [Except.toOption, achieved, Try.done?]
  | @onward a more x response tries attempted _ ih =>
    rw [List.flatMap_cons, List.filterMap_append, attempted.answers]
    have head : achieved (⟨a, x, .ok response⟩ :: tries) = ⟨a, some response⟩ :: achieved tries :=
      rfl
    rw [head, ← ih]
    rfl

theorem UpToFailure.mem_wanted (all : UpToFailure target command wanted tries) :
    ∀ o ∈ achieved tries, o.attachment ∈ wanted := by
  induction all with
  | nothing => simp [achieved]
  | failed _ => simp [achieved, Try.done?]
  | onward _ _ ih =>
    intro o mem
    rcases List.mem_cons.mp mem with rfl | later
    · exact List.mem_cons_self ..
    · exact List.mem_cons_of_mem _ (ih o later)

section
variable {observed : List StatusEntry} {plan : Plan} {adds dels : List Try}
  {last : List Exchange} {result : Except PassFault Unit}

/-- The end is a write, if anything was achieved. -/
theorem Carried.last_cases (carried : Carried target observed plan adds dels last heard result) :
    last = [] ∨ ∃ text answer, last = [⟨.writeStatus target.ns target.name text, answer⟩] := by
  by_cases nothing : achieved (adds ++ dels) = []
  · exact .inl (carried.unwritten nothing)
  · obtain ⟨text, answer, -, only, -⟩ := carried.written nothing
    exact .inr ⟨text, answer, only⟩

theorem Carried.answers_last (carried : Carried target observed plan adds dels last heard result)
    (command : Command) : last.filterMap (Exchange.accepted? command) = [] := by
  rcases carried.last_cases with rfl | ⟨text, answer, rfl⟩ <;> rfl

theorem Carried.outcomes_add
    (carried : Carried target observed plan adds dels last heard result) :
    outcomes .add plan.add heard = achieved adds := by
  have others := carried.removals.answers_other (by decide : Command.del ≠ .add)
  have answers : heard.filterMap (Exchange.accepted? .add) =
      (adds.flatMap (·.trace)).filterMap (Exchange.accepted? .add) := by
    rw [carried.in_order, List.filterMap_append, List.filterMap_append, others,
      carried.answers_last, List.append_nil, List.append_nil]
  rw [outcomes, answers]
  exact carried.additions.outcomes_eq

theorem Carried.outcomes_remove
    (carried : Carried target observed plan adds dels last heard result) :
    outcomes .del plan.remove heard = achieved dels := by
  have others := carried.additions.answers_other (by decide : Command.add ≠ .del)
  have answers : heard.filterMap (Exchange.accepted? .del) =
      (dels.flatMap (·.trace)).filterMap (Exchange.accepted? .del) := by
    rw [carried.in_order, List.filterMap_append, List.filterMap_append, others,
      carried.answers_last, List.append_nil, List.nil_append]
  rw [outcomes, answers]
  exact carried.removals.outcomes_eq

theorem Carried.tells_last {β : Type} {tells : Exchange → Option β}
    (carried : Carried target observed plan adds dels last heard result)
    (only : ∀ x, ¬ x.effect.IsWrite → tells x = none) :
    heard.filterMap tells = last.filterMap tells := by
  have before {command : Command} {wanted : List Attachment} {tries : List Try}
      (all : UpToFailure target command wanted tries) :
      (tries.flatMap (·.trace)).filterMap tells = [] :=
    List.filterMap_eq_nil_iff.mpr fun x mem => only x (all.no_write x mem)
  rw [carried.in_order, List.filterMap_append, List.filterMap_append, before carried.additions,
    before carried.removals, List.nil_append, List.nil_append]

theorem Carried.wrote (carried : Carried target observed plan adds dels last heard result) :
    heard.filterMap Exchange.wrote? = last.filterMap Exchange.wrote? := by
  apply carried.tells_last
  rintro ⟨e, answer⟩ other
  cases e <;> first | rfl | exact absurd trivial other

theorem Carried.mem_last (carried : Carried target observed plan adds dels last heard result)
    {x : Exchange} (mem : x ∈ heard) (write : x.effect.IsWrite) : x ∈ last := by
  rw [carried.in_order, List.mem_append, List.mem_append] at mem
  rcases mem with added | removed | wrote
  · exact absurd write (carried.additions.no_write x added)
  · exact absurd write (carried.removals.no_write x removed)
  · exact wrote

end

/-- What can be heard of a pass: nothing that matters, or a plan that is carried out where the
pod was located. -/
inductive Passed : List Exchange → Prop
  | idle {heard : List Exchange} : Quiet heard → Passed heard
  | busy {ns name : String} {pod : Pod} {located heard : List Exchange}
      {desired : List Attachment} {observed : List StatusEntry} {target : Target}
      {adds dels : List Try} {written : List Exchange} {result : Except PassFault Unit} :
    Located target.uid located (.ok (target.netns, target.sandboxId)) →
    pod.desired = .ok desired → pod.observed = .ok observed →
    Carried target observed (Plan.compute desired observed) adds dels written heard result →
    Passed (⟨.findPod ns name, some pod⟩ :: (located ++ heard))

inductive Ran (key : String) : List Exchange → Prop
  | idle {heard : List Exchange} : Quiet heard → Ran key heard
  | busy {ns name uid netns sandboxId : String} {pod : Pod} {located heard : List Exchange}
      {desired : List Attachment} {observed : List StatusEntry} {adds dels : List Try}
      {written : List Exchange} {result : Except PassFault Unit} :
    read key pod = .ok ⟨desired, observed, uid⟩ →
    Located uid located (.ok (netns, sandboxId)) →
    Carried ⟨pod, key, ns, name, uid, sandboxId, netns⟩ observed (Plan.compute desired observed)
      adds dels written heard result →
    Ran key (⟨.findPod ns name, some pod⟩ :: (located ++ heard))

theorem Ran.passed {key : String} (ran : Ran key heard) : Passed heard := by
  cases ran with
  | idle quiet => exact .idle quiet
  | busy reading located carried =>
    obtain ⟨wanted, present, -⟩ := read_ok reading
    refine .busy ?_ wanted present carried
    exact located

theorem quiet_searched {uid : String} {found : Except RuntimeFault String}
    (searched : Sandbox.Searched uid heard found) : Quiet heard := by
  cases searched <;> simp [Quiet, Sandbox.listing, Sandbox.inspection, Effect.IsQuiet]

theorem Located.quiet {uid : String} {place : Except PassFault (String × String)}
    (located : Located uid heard place) : Quiet heard := by
  have last (listed : Except RuntimeFault Sandbox.ListResponse) :
      Quiet [Sandbox.listing uid listed] := by
    simp [Quiet, Sandbox.listing, Effect.IsQuiet]
  cases located with
  | homeless searched => exact quiet_searched searched
  | vanished searched _ => exact List.forall_mem_append.mpr ⟨quiet_searched searched, last _⟩
  | found searched _ => exact List.forall_mem_append.mpr ⟨quiet_searched searched, last _⟩

variable {t : List Exchange}

theorem quiet_of_asks {α : Type} {kind : Effect → Prop} (still : ∀ e, kind e → e.IsQuiet)
    {p : Action α} (asks : p.Asks kind) :
    p.Obeys Action.recording t fun _ u => ∃ x, Quiet x ∧ u = t ++ x := by
  apply asks.obeys
  · rintro u e ⟨x, quiet, rfl⟩ asked
    refine ⟨trivial, fun answer _ => ⟨_, ?_, List.append_assoc ..⟩⟩
    intro y mem
    rcases List.mem_append.mp mem with old | new
    · exact quiet y old
    · obtain rfl := List.mem_singleton.mp (List.mem_of_mem_filter new)
      exact still e asked
  · exact ⟨[], by simp [Quiet], (List.append_nil t).symm⟩

/-- Whether an effect is only for people to read. -/
def Announces : Effect → Prop
  | .publish _ _ => True
  | .log _ => True
  | _ => False

theorem asks_refuse (key : String) (pod : Pod) : (refuse key pod).Asks Announces := by
  unfold refuse
  split
  · apply (Action.asks_ask.mpr trivial).bind
    intro _
    exact Action.asks_ask.mpr trivial
  · trivial

theorem quiet_found {ns name : String} {found : Option Pod} {heard : List Exchange}
    (quiet : Quiet heard) : Quiet (⟨.findPod ns name, found⟩ :: heard) :=
  List.forall_mem_cons.mpr ⟨trivial, quiet⟩

/-- What matters is only heard once the pod is located. -/
theorem mem_later_of_loud {ns name : String} {found : Option Pod} {asked later : List Exchange}
    (quiet : Quiet asked) {x : Exchange} (loud : ¬ x.effect.IsQuiet)
    (mem : x ∈ ⟨.findPod ns name, found⟩ :: (asked ++ later)) : x ∈ later := by
  rw [← List.cons_append, List.mem_append] at mem
  rcases mem with early | late
  · exact absurd (quiet_found quiet x early) loud
  · exact late

theorem ran_reconcilePod {key ns name : String} {pod : Pod} :
    (reconcilePod key ns name pod).Obeys Action.recording [⟨.findPod ns name, some pod⟩]
      fun _ heard => Ran key heard := by
  have nothing : Quiet [] := by simp [Quiet]
  unfold reconcilePod
  cases reading : read key pod with
  | error fault => exact .idle (quiet_found nothing)
  | ok found =>
    obtain ⟨wanted, present, -⟩ := read_ok reading
    simp only [Action.obeys_bind]
    apply heard_locate
    intro x place located
    cases place with
    | error fault => exact .idle (quiet_found located.quiet)
    | ok place =>
      apply (heard_planned (Pod.observed_sound present)).mono
      rintro result _ ⟨adds, dels, written, heard, rfl, carried⟩
      exact .busy reading located carried

theorem ran_reconcile (key : String) :
    (reconcile key).Obeys Action.recording [] fun _ heard => Ran key heard := by
  unfold reconcile
  have nothing : Quiet [] := by simp [Quiet]
  cases splitNamespacedName key with
  | none => exact .idle nothing
  | some parts =>
    obtain ⟨ns, name⟩ := parts
    rw [Action.obeys_bind]
    apply Action.obeys_heard
    intro found
    cases found with
    | none =>
      simp only [Action.obeys_bind, Action.obeys_unheard]
      exact .idle (quiet_found nothing)
    | some pod =>
      simp only
      split
      · rw [Action.obeys_bind]
        apply (quiet_of_asks _ (asks_refuse key pod)).mono
        · rintro _ u ⟨x, quiet, rfl⟩
          exact .idle (quiet_found quiet)
        · intro e announces
          cases e <;> trivial
      · exact ran_reconcilePod

theorem ran_heard {σ : Type} (handle : (e : Effect) → σ → e.Answer × σ) (s : σ) (key : String) :
    Ran key ((reconcile key).heard handle s) := by
  have ran := Action.heard_of_obeys handle s (ran_reconcile key)
  rwa [List.nil_append] at ran

theorem passed_reconcile (key : String) :
    (reconcile key).Obeys Action.recording [] fun _ heard => Passed heard :=
  (ran_reconcile key).mono fun _ _ ran => ran.passed

end Pass

end Hotplug
