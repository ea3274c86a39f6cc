import Hotplug.Proofs.Pass.Deeds
/-!
The requests of a pass with the definitions that they were made of, read off what was heard of it.
Those of one command belong to the first attachments of the plan, in their order. Attachments
whose definitions cannot be used have no errand.
-/
namespace Hotplug

open Delegate

structure Errand where
  ns : String
  name : String
  definition : Option Definition
  request : Request
  answer : Except DelegateFault Response
  deriving DecidableEq

def Errand.outcome (x : Errand) (a : Attachment) : Outcome := ⟨a, x.answer.toOption⟩

/-- A definition, and the namespace and name by which it was looked up. -/
structure Lookup where
  ns : String := ""
  name : String := ""
  found : Option Definition := none

/-- The errands, in their order. A request is made of the definition that was looked up last. -/
def errands (last : Lookup) : List Exchange → List Errand
  | [] => []
  | ⟨.findDefinition ns name, found⟩ :: more => errands ⟨ns, name, found⟩ more
  | ⟨.invoke request, answer⟩ :: more =>
    ⟨last.ns, last.name, last.found, request, answer⟩ :: errands last more
  | _ :: more => errands last more

def tasks (command : Command) (wanted : List Attachment) (heard : List Exchange) :
    List (Attachment × Errand) :=
  wanted.zip ((errands {} heard).filter (·.request.command = command))

namespace Pass

variable {target : Target} {command other : Command} {a : Attachment} {heard : List Exchange}
  {outcome : Except PassFault Response} {wanted : List Attachment} {tries : List Try} {last : Lookup}

theorem errands_append (heard later : List Exchange) (last : Lookup) :
    ∃ last', errands last (heard ++ later) = errands last heard ++ errands last' later := by
  induction heard generalizing last with
  | nil => exact ⟨last, rfl⟩
  | cons x heard ih =>
    obtain ⟨e, answer⟩ := x
    cases e with
    | findDefinition ns name => exact ih ⟨ns, name, answer⟩
    | invoke request =>
      obtain ⟨last', same⟩ := ih last
      exact ⟨last', congrArg _ same⟩
    | _ => exact ih last

theorem errands_quiet (quiet : Quiet heard) : errands last heard = [] := by
  induction heard generalizing last with
  | nil => rfl
  | cons x heard ih =>
    obtain ⟨still, rest⟩ := List.forall_mem_cons.mp quiet
    obtain ⟨e, answer⟩ := x
    cases e with
    | invoke request => exact False.elim still
    | _ => exact ih rest

/-- An errand for an attachment: its definition was found, and the request was made of it. -/
structure Serves (target : Target) (command : Command) (a : Attachment) (x : Errand) : Prop where
  ns : x.ns = definitionNs target a
  name : x.name = a.name
  made : ∃ definition config, x.definition = some definition ∧
    definition.pluginConfig = .ok config ∧ x.request = request target command a config

/-- What an errand got done is among what was achieved, if it is worth an entry. -/
def Counts (x : Errand) (a : Attachment) (done : List Outcome) : Prop :=
  ∀ e, (x.outcome a).reported? = some e → x.outcome a ∈ done

/-- No errand for an attempt that failed before its request, and else one. -/
theorem Asked.errand (asked : Asked target command a heard outcome) (last : Lookup) :
    (errands last heard = [] ∧ ∃ fault, outcome = .error fault) ∨
      ∃ x, errands last heard = [x] ∧ Serves target command a x ∧
        ∀ trace, Counts x a (achieved [⟨a, trace, outcome⟩]) := by
  cases asked with
  | undefined => exact .inl ⟨rfl, _, rfl⟩
  | unusable _ => exact .inl ⟨rfl, _, rfl⟩
  | refused usable =>
    refine .inr ⟨_, rfl, ⟨rfl, rfl, _, _, rfl, usable, rfl⟩, ?_⟩
    intro trace e reported
    cases reported
  | empty usable _ bare =>
    refine .inr ⟨_, rfl, ⟨rfl, rfl, _, _, rfl, usable, rfl⟩, ?_⟩
    intro trace e reported
    simp [Errand.outcome, Outcome.reported?, Except.toOption, bare] at reported
  | accepted usable _ =>
    refine .inr ⟨_, rfl, ⟨rfl, rfl, _, _, rfl, usable, rfl⟩, ?_⟩
    intro trace e _
    exact List.mem_singleton_self _

theorem Attempt.errand (attempted : Attempt target command a heard outcome) (last : Lookup) :
    (errands last heard = [] ∧ ∃ fault, outcome = .error fault) ∨
      ∃ x, errands last heard = [x] ∧ Serves target command a x ∧
        ∀ trace, Counts x a (achieved [⟨a, trace, outcome⟩]) := by
  obtain @⟨asked, _, tried⟩ := attempted
  obtain ⟨last', same⟩ := errands_append asked [told target command a outcome.isOk] last
  rw [same, errands_quiet (quiet_told _), List.append_nil]
  exact tried.errand last

theorem Serves.command_eq {x : Errand} (serves : Serves target command a x) :
    x.request.command = command := by
  obtain ⟨definition, config, -, -, made⟩ := serves.made
  rw [made]
  rfl

theorem UpToFailure.serves (all : UpToFailure target command wanted tries) (last : Lookup) :
    (∀ x ∈ errands last (tries.flatMap (·.trace)), x.request.command = command) ∧
      ∀ p ∈ wanted.zip (errands last (tries.flatMap (·.trace))),
        Serves target command p.1 p.2 ∧ Counts p.2 p.1 (achieved tries) := by
  induction all generalizing last with
  | nothing => exact ⟨by simp [errands], by simp⟩
  | failed attempted =>
    rw [List.flatMap_singleton]
    rcases attempted.errand last with ⟨none, -⟩ | ⟨x, one, serves, counts⟩
    · rw [none]
      exact ⟨by simp, by simp⟩
    · rw [one]
      simp only [List.zip_cons_cons, List.zip_nil_right, List.mem_singleton, forall_eq]
      exact ⟨serves.command_eq, serves, counts _⟩
  | @onward a more trace response tries attempted _ ih =>
    rw [List.flatMap_cons]
    obtain ⟨last', same⟩ := errands_append trace (tries.flatMap (·.trace)) last
    obtain ⟨commands, rest⟩ := ih last'
    rcases attempted.errand last with ⟨-, fault, failed⟩ | ⟨x, one, serves, counts⟩
    · cases failed
    · rw [same, one, List.singleton_append, List.zip_cons_cons]
      have whole : achieved (⟨a, trace, .ok response⟩ :: tries) =
          achieved [⟨a, trace, .ok response⟩] ++ achieved tries := rfl
      refine ⟨List.forall_mem_cons.mpr ⟨serves.command_eq, commands⟩,
        List.forall_mem_cons.mpr ⟨⟨serves, ?_⟩, ?_⟩⟩
      · intro e reported
        rw [whole]
        exact List.mem_append_left _ (counts trace e reported)
      · intro p mem
        obtain ⟨serves', counts'⟩ := rest p mem
        refine ⟨serves', fun e reported => ?_⟩
        rw [whole]
        exact List.mem_append_right _ (counts' e reported)

section
variable {observed : List StatusEntry} {plan : Plan} {adds dels : List Try}
  {written : List Exchange} {result : Except PassFault Unit}

/-- The errands of a pass are those of its additions and then those of its removals. -/
theorem Carried.errands_eq (carried : Carried target observed plan adds dels written heard result)
    (last : Lookup) : ∃ first second, errands last heard =
      errands first (adds.flatMap (·.trace)) ++ errands second (dels.flatMap (·.trace)) := by
  have wrote (last : Lookup) : errands last written = [] := by
    rcases carried.last_cases with rfl | ⟨text, answer, rfl⟩ <;> rfl
  rw [carried.in_order]
  obtain ⟨second, same⟩ :=
    errands_append (adds.flatMap (·.trace)) (dels.flatMap (·.trace) ++ written) last
  obtain ⟨third, same'⟩ := errands_append (dels.flatMap (·.trace)) written second
  refine ⟨last, second, ?_⟩
  rw [same, same', wrote, List.append_nil]

/-- The tasks of a pass serve the elements of its plan. -/
theorem Carried.tasks_serve (carried : Carried target observed plan adds dels written heard result)
    {front : List Exchange} (quiet : Quiet front) :
    (∀ p ∈ tasks .add plan.add (front ++ heard),
      Serves target .add p.1 p.2 ∧ Counts p.2 p.1 (achieved adds)) ∧
    ∀ p ∈ tasks .del plan.remove (front ++ heard), Serves target .del p.1 p.2 := by
  obtain ⟨last, behind⟩ := errands_append front heard {}
  obtain ⟨first, second, both⟩ := carried.errands_eq last
  obtain ⟨added, serves⟩ := carried.additions.serves first
  obtain ⟨removed, serves'⟩ := carried.removals.serves second
  have keeps {command : Command} {es : List Errand} (all : ∀ x ∈ es, x.request.command = command) :
      es.filter (·.request.command = command) = es :=
    List.filter_eq_self.mpr fun x mem => by simpa using all x mem
  have drops {command other : Command} {es : List Errand}
      (all : ∀ x ∈ es, x.request.command = command) (ne : command ≠ other) :
      es.filter (·.request.command = other) = [] :=
    List.filter_eq_nil_iff.mpr fun x mem => by simpa [all x mem] using ne
  constructor
  · rw [tasks, behind, errands_quiet quiet, List.nil_append, both, List.filter_append,
      keeps added, drops removed (by decide), List.append_nil]
    exact serves
  · rw [tasks, behind, errands_quiet quiet, List.nil_append, both, List.filter_append,
      drops added (by decide), keeps removed, List.nil_append]
    exact fun p mem => (serves' p mem).1

theorem UpToFailure.found_of_achieved (all : UpToFailure target command wanted tries) :
    ∀ o ∈ achieved tries, ∃ definition,
      ⟨.findDefinition (definitionNs target o.attachment) o.attachment.name, some definition⟩ ∈
        tries.flatMap (·.trace) := by
  induction all with
  | nothing => simp [achieved]
  | failed _ => simp [achieved, Try.done?]
  | @onward a more trace response tries attempted _ ih =>
    intro o mem
    rcases List.mem_cons.mp mem with rfl | later
    · obtain @⟨asked, _, tried⟩ := attempted
      cases tried with
      | @accepted definition config _ _ _ =>
        exact ⟨definition, by simp⟩
    · obtain ⟨definition, found⟩ := ih o later
      exact ⟨definition, by simp [found]⟩

end

end Pass

end Hotplug
