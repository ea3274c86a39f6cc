import Hotplug.Proofs.Api.Patch
import Hotplug.Proofs.Pass.Standing
/-!
What becomes of the status annotation if a pass is not alone: before each of its steps others may
change, delete and make pods. The pass writes once at most, over whatever the pod of that name has
then. Writes of several passes are not covered, nor what others do with the status later.
-/
namespace Hotplug

open Delegate

abbrev Pods := String → String → Option Pod

/-- A write that the server carried out, with the pods just before it and just after. -/
structure Overwrite where
  ns : String
  name : String
  text : String
  before : Pods
  after : Pods

structure Scene where
  time : Nat := 0
  pods : Pods
  overwrites : List Overwrite := []

structure Others where
  change : Nat → Pods → Pods
  answer : Nat → (e : Effect) → e.Answer
  lands : Nat → Bool

namespace Scene

def patched (pods : Pods) (ns name text : String) : Pods := fun n m =>
  if n = ns ∧ m = name then
    (pods n m).map fun pod =>
      if (Api.statusPatch ns name text).fits pod then (Api.statusPatch ns name text).applied pod
      else pod
  else pods n m

def overwrite (s : Scene) (ns name text : String) : Scene :=
  { s with
    pods := patched s.pods ns name text
    overwrites := s.overwrites ++ [⟨ns, name, text, s.pods, patched s.pods ns name text⟩] }

end Scene

namespace Others

def await (others : Others) (s : Scene) : Scene :=
  { s with time := s.time + 1, pods := others.change s.time s.pods }

def handle (others : Others) (e : Effect) (s : Scene) : e.Answer × Scene :=
  (others.answer s.time e,
    match e with
    | .writeStatus ns name text =>
      if others.lands s.time then (others.await s).overwrite ns name text else others.await s
    | _ => others.await s)

end Others

def Exchange.write? : Exchange → Option (String × String × String)
  | ⟨.writeStatus ns name text, _⟩ => some (ns, name, text)
  | _ => none

namespace Overwrite

def request (o : Overwrite) : String × String × String := (o.ns, o.name, o.text)

/-- The pod of that name has the new status, if there is one, and is else as it was; so are all
other pods. -/
structure OnlyStatus (o : Overwrite) : Prop where
  hit : o.after o.ns o.name =
    (o.before o.ns o.name).map fun pod => { pod with status := some o.text }
  missed : ∀ n m, ¬ (n = o.ns ∧ m = o.name) → o.after n m = o.before n m

end Overwrite

variable {others : Others} {s : Scene}

theorem onlyStatus_patched (pods : Pods) (ns name text : String) :
    Overwrite.OnlyStatus ⟨ns, name, text, pods, Scene.patched pods ns name text⟩ := by
  constructor
  · simp only [Scene.patched, and_self, if_true, Api.fits_statusPatch, Api.applied_statusPatch]
  · intro n m other
    simp only [Scene.patched, other, if_false]

/-- From one scene to another only those writes landed that were asked for meanwhile. -/
def Lands (s t : Scene) (heard : List Exchange) : Prop :=
  ∃ new : List Overwrite, t.overwrites = s.overwrites ++ new ∧
    (new.map Overwrite.request).Sublist (heard.filterMap Exchange.write?) ∧
    ∀ o ∈ new, o.OnlyStatus

theorem Lands.still {t : Scene} {heard : List Exchange} (same : t.overwrites = s.overwrites) :
    Lands s t heard :=
  ⟨[], by simp [same], by simp, by simp⟩

theorem Lands.trans {t u : Scene} {heard later : List Exchange} (h : Lands s t heard)
    (onward : Lands t u later) : Lands s u (heard ++ later) := by
  obtain ⟨new, overwrites, asked, only⟩ := h
  obtain ⟨more, overwrites', asked', only'⟩ := onward
  refine ⟨new ++ more, by rw [overwrites', overwrites, List.append_assoc], ?_, ?_⟩
  · rw [List.map_append, List.filterMap_append]
    exact asked.append asked'
  · exact List.forall_mem_append.mpr ⟨only, only'⟩

theorem lands_handle (others : Others) (e : Effect) (s : Scene) :
    Lands s (others.handle e s).2
      ([⟨e, (others.handle e s).1⟩].filter (·.isHeard)) := by
  cases e with
  | writeStatus ns name text =>
    cases lands : others.lands s.time with
    | false => exact .still (by simp [Others.handle, lands, Others.await])
    | true =>
      let pods := (others.await s).pods
      refine ⟨[⟨ns, name, text, pods, Scene.patched pods ns name text⟩], ?_, .refl _, ?_⟩
      · simp [Others.handle, lands, Scene.overwrite, Others.await, pods]
      · intro o mem
        obtain rfl := List.mem_singleton.mp mem
        exact onlyStatus_patched ..
  | _ => exact .still rfl

/-- What lands is among what a program asks to write. -/
theorem lands_run {α : Type} (others : Others) (p : Action α) (s : Scene) :
    Lands s (p.run others.handle s).2 (p.heard others.handle s) := by
  induction p generalizing s with
  | done a => exact .still rfl
  | step e next ih =>
    rw [Action.heard_step]
    exact (lands_handle others e s).trans (ih _ _)

theorem Quiet.leaves {heard : List Exchange} (quiet : Quiet heard) :
    heard.filterMap Exchange.write? = [] := by
  apply quiet.tells_none
  rintro ⟨e, answer⟩ still
  cases e <;> first | rfl | cases still

theorem Pass.Carried.writes {target : Pass.Target} {observed : List StatusEntry} {plan : Plan}
    {adds dels : List Pass.Try} {heard last : List Exchange} {result : Except PassFault Unit}
    (carried : Pass.Carried target observed plan adds dels last heard result) :
    heard.filterMap Exchange.write? = last.filterMap Exchange.write? := by
  apply carried.tells_last
  rintro ⟨e, answer⟩ other
  cases e <;> first | rfl | exact absurd trivial other

theorem planOf_read {key uid : String} {pod : Pod} {desired : List Attachment}
    {observed : List StatusEntry} (reading : Pass.read key pod = .ok ⟨desired, observed, uid⟩) :
    pod.observed = .ok observed ∧ planOf pod = Plan.compute desired observed := by
  obtain ⟨wanted, present, -⟩ := Pass.read_ok reading
  exact ⟨present, by simp only [planOf, wanted, present]⟩

/-- The text tells what follows from the status that the pass read and from what it got done. -/
structure Merges (pod : Pod) (heard : List Exchange) (text : String)
    (observed found : List StatusEntry) (removed : List Attachment) : Prop where
  read : pod.observed = .ok observed
  parsed : Status.parse text = .ok found
  unplugged : removed = (outcomes .del (planOf pod).remove heard).map (·.attachment)
  same : found.map StatusEntry.rough =
    (Status.merge observed (outcomes .add (planOf pod).add heard) removed).map StatusEntry.rough

/-- A pass asks to write nothing, or one status for the pod that it looked up. -/
theorem writes_of_ran {key : String} {heard : List Exchange} (ran : Pass.Ran key heard) :
    heard.filterMap Exchange.write? = [] ∨
      ∃ ns name pod text observed found removed,
        heard.head? = some ⟨.findPod ns name, some pod⟩ ∧
        heard.filterMap Exchange.write? = [(ns, name, text)] ∧
        Merges pod heard text observed found removed := by
  cases ran with
  | idle quiet => exact .inl quiet.leaves
  | @busy ns name uid netns sandboxId pod located later desired observed adds dels last result
      reading found carried =>
    have quiet : Quiet (⟨.findPod ns name, some pod⟩ :: located) := Pass.quiet_found found.quiet
    have writes : (⟨.findPod ns name, some pod⟩ :: (located ++ later)).filterMap
        Exchange.write? = last.filterMap Exchange.write? := by
      rw [← List.cons_append, List.filterMap_append, quiet.leaves, List.nil_append,
        carried.writes]
    by_cases nothing : Pass.achieved (adds ++ dels) = []
    · refine .inl (writes.trans ?_)
      rw [carried.unwritten nothing]
      rfl
    · obtain ⟨text, answer, found, rfl, parsed, same⟩ := carried.written nothing
      obtain ⟨present, plan⟩ := planOf_read reading
      refine .inr ⟨ns, name, pod, text, observed, found,
        (Pass.achieved dels).map (·.attachment), rfl, writes, present, parsed, ?_, ?_⟩
      · rw [plan, ← List.cons_append, quiet.outcomes_behind, carried.outcomes_remove]
      · rw [plan, ← List.cons_append, quiet.outcomes_behind, carried.outcomes_add]
        exact same

theorem Merges.keeps {pod : Pod} {heard : List Exchange} {text : String}
    {observed found : List StatusEntry} {removed : List Attachment}
    (merges : Merges pod heard text observed found removed) {e : StatusEntry} (mem : e ∈ observed)
    (stays : e.isDefault = true ∨ e.key ∉ Status.gone removed) :
    e.rough ∈ found.map StatusEntry.rough := by
  rw [merges.same]
  refine List.mem_map_of_mem ?_
  refine List.mem_append_left _ (List.mem_filter.mpr ⟨mem, ?_⟩)
  simpa [Status.gone] using stays

/-- Whatever others do meanwhile, a pass replaces one status at most. What it replaces is the
status of the pod that bears the name then, whoever that is, and nothing else of any pod. If that
status is still the one that the pass read, then only what the pass unplugged is lost. -/
theorem one_status_replaced (others : Others) (pods : Pods) (key : String) :
    let heard := (Pass.reconcile key).heard others.handle { pods }
    let overwrites := ((Pass.reconcile key).run others.handle { pods }).2.overwrites
    overwrites.length ≤ 1 ∧ ∀ o ∈ overwrites, o.OnlyStatus ∧
      ∃ pod observed found removed,
        heard.head? = some ⟨.findPod o.ns o.name, some pod⟩ ∧
        Merges pod heard o.text observed found removed ∧
        ∀ current, o.before o.ns o.name = some current → current.status = pod.status →
          current.observed = .ok observed ∧
          ∀ e ∈ observed, e.isDefault = true ∨ e.key ∉ Status.gone removed →
            e.rough ∈ found.map StatusEntry.rough := by
  intro heard overwrites
  have ran := Action.heard_of_obeys others.handle { pods } (Pass.ran_reconcile key)
  rw [List.nil_append] at ran
  obtain ⟨new, eq, asked, only⟩ := lands_run others (Pass.reconcile key) { pods }
  obtain rfl : overwrites = new := eq
  rcases writes_of_ran ran with nothing | ⟨ns, name, pod, text, observed, found, removed, first,
    writes, merges⟩
  · rw [nothing, List.sublist_nil, List.map_eq_nil_iff] at asked
    simp [asked]
  · rw [writes] at asked
    have short := asked.length_le
    rw [List.length_map, List.length_singleton] at short
    refine ⟨short, fun o mem => ⟨only o mem, pod, observed, found, removed, ?_⟩⟩
    have request := List.mem_singleton.mp (asked.subset (List.mem_map_of_mem mem))
    obtain ⟨rfl, rest⟩ := Prod.mk.inj request
    obtain ⟨rfl, rfl⟩ := Prod.mk.inj rest
    refine ⟨first, merges, fun current _ same => ⟨?_, fun e mem => merges.keeps mem⟩⟩
    rw [← merges.read, Pod.observed, Pod.observed, same]

def Pods.only (pod : Pod) : Pods := fun ns name => if pod.isNamed ns name then some pod else none

def replacing (new : Pod) : Others where
  change time pods := if time = 0 then pods else .only new
  answer _ e := (Pass.sampleWorld e ()).1
  lands _ := true

def recreatedPod : Pod := { Pass.samplePod with uid := some "u2", status := none }

def editedPod : Pod :=
  { Pass.samplePod with
    status := some ("[\x7b\"name\": \"default/old\", \"interface\": \"eth9\"\x7d, " ++
      "\x7b\"name\": \"default/other\", \"interface\": \"eth8\"\x7d]") }

def Overwrite.isSeen (o : Overwrite) (pod : Pod) : Bool :=
  (o.before o.ns o.name).all fun current => current.uid == pod.uid && current.status == pod.status

/-- The pass reads the sample, and what it writes replaces the status of the new pod. -/
structure Replaces (new : Pod) : Prop where
  read : ((Pass.reconcile "default/web").heard (replacing new).handle
      { pods := .only Pass.samplePod }).head? =
    some ⟨.findPod "default" "web", some Pass.samplePod⟩
  replaced : ∃ o ∈ ((Pass.reconcile "default/web").run (replacing new).handle
      { pods := .only Pass.samplePod }).2.overwrites,
    o.isSeen Pass.samplePod = false ∧ o.before "default" "web" = some new ∧
      o.after "default" "web" = some { new with status := some o.text }

/-- Another pod of the same name, and the same pod with a status that somebody else wrote, get the
status that follows from what the pass read. -/
theorem unseen_status_replaced : Replaces recreatedPod ∧ Replaces editedPod := by
  constructor
  · exact ⟨rfl, by decide +kernel⟩
  · exact ⟨rfl, by decide +kernel⟩

def listedPod : Pod :=
  { Pass.samplePod with
    status := some ("[\x7b\"name\": \"default/old\", \"interface\": \"eth9\"\x7d, " ++
      "\x7b\"name\": \"kindnet\", \"interface\": \"eth0\", \"default\": true\x7d]") }

def listedDefault : StatusEntry := { name := "kindnet", interface := "eth0", isDefault := true }

def absent (pod : Pod) : Others where
  change _ pods := pods
  answer
    | _, .findPod _ _ => some pod
    | _, e => (Pass.sampleWorld e ()).1
  lands _ := true

theorem sample_status_replaced :
    ∃ o ∈ ((Pass.reconcile "default/web").run (absent listedPod).handle
        { pods := .only listedPod }).2.overwrites,
      o.OnlyStatus ∧ ∃ found, Status.parse o.text = .ok found ∧
        listedDefault.rough ∈ found.map StatusEntry.rough := by
  have read : listedPod.observed =
      .ok [{ name := "default/old", interface := "eth9" }, listedDefault] := by
    decide +kernel
  have first : ((Pass.reconcile "default/web").heard (absent listedPod).handle
      { pods := .only listedPod }).head? =
        some ⟨.findPod "default" "web", some listedPod⟩ := rfl
  obtain ⟨-, all⟩ := one_status_replaced (absent listedPod) (.only listedPod) "default/web"
  obtain ⟨o, mem, current⟩ : ∃ o ∈ ((Pass.reconcile "default/web").run (absent listedPod).handle
      { pods := .only listedPod }).2.overwrites, o.before o.ns o.name = some listedPod := by
    decide +kernel
  obtain ⟨only, pod, observed, found, removed, front, merges, keeps⟩ := all o mem
  obtain rfl : listedPod = pod := by
    have same := Option.some.inj (first.symm.trans front)
    generalize o.ns = ns, o.name = name at same
    cases same
    rfl
  obtain rfl := Except.ok.inj (read.symm.trans merges.read)
  obtain ⟨-, kept⟩ := keeps listedPod current rfl
  exact ⟨o, mem, only, found, merges.parsed, kept listedDefault (by simp) (.inl rfl)⟩

end Hotplug
