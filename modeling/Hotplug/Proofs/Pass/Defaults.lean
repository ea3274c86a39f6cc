import Hotplug.Proofs.Pass.Standing
import Hotplug.Proofs.Status.RoundTrip
/-!
The entries of the default network, whatever passes do: each status that is written has them just
as the first one had them. What is to be removed stands for another entry, and a key of default
entries alone can only be struck for an entry whose namespace is given but empty.
-/
namespace Hotplug

open Delegate

def Exchange.status? : Exchange → Option String
  | ⟨.writeStatus _ _ status, _⟩ => some status
  | _ => none

namespace Status

def defaults (entries : List StatusEntry) : List StatusEntry := entries.filter (·.isDefault)

/-- Some entries have the key, and all of those are default entries. -/
def OnlyDefault (entries : List StatusEntry) (key : String) : Prop :=
  (∃ e ∈ entries, e.key = key) ∧ ∀ e ∈ entries, e.key = key → e.isDefault = true

variable {current found : List StatusEntry} {added : List Outcome} {removed : List Attachment}

theorem defaults_merge : defaults (merge current added removed) = defaults current := by
  have none : defaults ((added.filter (·.isValid)).filterMap (·.reported?)) = [] := by
    apply List.filter_eq_nil_iff.mpr
    intro e mem
    obtain ⟨o, -, reported⟩ := List.mem_filterMap.mp mem
    simp [(Outcome.reported?_name reported).2]
  have kept (e : StatusEntry) :
      (e.isDefault && (e.isDefault || !(removed.map removalKey).contains e.key)) =
        e.isDefault := by
    cases e.isDefault <;> rfl
  unfold defaults at none ⊢
  rw [merge, List.filter_append, none, List.append_nil, List.filter_filter]
  simp only [kept]

theorem defaults_rough (entries : List StatusEntry) :
    defaults (entries.map StatusEntry.rough) = (defaults entries).map StatusEntry.rough := by
  unfold defaults
  rw [List.filter_map]
  rfl

theorem defaults_of_rough (integral : ∀ e ∈ defaults current, e.Integral)
    (same : found.map StatusEntry.rough = current.map StatusEntry.rough) :
    defaults found = defaults current := by
  have alike :
      (defaults found).map StatusEntry.rough = (defaults current).map StatusEntry.rough := by
    rw [← defaults_rough, same, defaults_rough]
  exact Json.eq_of_map_eq (fun e mem d => (integral e mem).eq_of_rough) alike

end Status

namespace Pass

variable {target : Target} {command : Command} {a : Attachment} {heard last : List Exchange}
  {outcome : Except PassFault Response} {wanted : List Attachment} {tries : List Try}
  {x : Exchange} {text : String}

theorem isWrite_of_status? (sent : x.status? = some text) : x.effect.IsWrite := by
  obtain ⟨e, answer⟩ := x
  cases e <;> trivial

theorem Carried.tells_merge {observed : List StatusEntry} {plan : Plan} {adds dels : List Try}
    {result : Except PassFault Unit}
    (carried : Carried target observed plan adds dels last heard result) (mem : x ∈ heard)
    (sent : x.status? = some text) :
    ∃ found added removed, Status.parse text = .ok found ∧
      found.map StatusEntry.rough =
        (Status.merge observed added removed).map StatusEntry.rough := by
  have wrote := carried.mem_last mem (isWrite_of_status? sent)
  by_cases nothing : achieved (adds ++ dels) = []
  · rw [carried.unwritten nothing] at wrote
    cases wrote
  · obtain ⟨told, answer, found, only, parsed, same⟩ := carried.written nothing
    rw [only] at wrote
    obtain rfl := List.mem_singleton.mp wrote
    obtain rfl : told = text := Option.some.inj sent
    exact ⟨found, _, _, parsed, same⟩

theorem Passed.tells_merge (passed : Passed heard) {ns name : String} {pod : Pod}
    (front : heard.head? = some ⟨.findPod ns name, some pod⟩) {entries : List StatusEntry}
    (present : pod.observed = .ok entries) (mem : x ∈ heard) (sent : x.status? = some text) :
    ∃ found added removed, Status.parse text = .ok found ∧
      found.map StatusEntry.rough =
        (Status.merge entries added removed).map StatusEntry.rough := by
  have loud : ¬ x.effect.IsQuiet := by
    obtain ⟨e, answer⟩ := x
    cases e <;> simp_all [Exchange.status?, Effect.IsQuiet]
  cases passed with
  | idle quiet => exact absurd (quiet x mem) loud
  | @busy _ _ pod' asked later desired observed _ _ _ _ _ located wanted present' carried =>
    cases front
    obtain rfl : observed = entries := Except.ok.inj (present'.symm.trans present)
    exact carried.tells_merge (mem_later_of_loud located.quiet loud mem) sent

end Pass

/-- The statuses that passes leave: the one that was there, and each one that a pass wrote, or
tried to write, which read one of them. -/
inductive Left (initial : Option String) : Option String → Prop
  | start : Left initial initial
  | wrote {σ : Type} (handle : (e : Effect) → σ → e.Answer × σ) (s : σ) {key ns name : String}
      {pod : Pod} {x : Exchange} {text : String} :
    Left initial pod.status →
    ((Pass.reconcile key).heard handle s).head? = some ⟨.findPod ns name, some pod⟩ →
    x ∈ (Pass.reconcile key).heard handle s → x.status? = some text →
    Left initial (some text)

theorem Left.defaults_eq {initial status : Option String} (left : Left initial status)
    {first : List StatusEntry} (read : Pod.observed { status := initial } = .ok first)
    (integral : ∀ e ∈ Status.defaults first, e.Integral) :
    ∃ entries, Pod.observed { status } = .ok entries ∧
      Status.defaults entries = Status.defaults first := by
  induction left with
  | start => exact ⟨first, read, rfl⟩
  | @wrote _ handle s key ns name pod x text _ front mem sent ih =>
    obtain ⟨entries, present, defaults⟩ := ih
    have passed := Action.heard_of_obeys handle s (Pass.passed_reconcile key)
    rw [List.nil_append] at passed
    obtain ⟨found, added, removed, parsed, same⟩ := passed.tells_merge front present mem sent
    have merged : Status.defaults (Status.merge entries added removed) = Status.defaults first :=
      Status.defaults_merge.trans defaults
    refine ⟨found, parsed, ?_⟩
    rw [← merged] at integral ⊢
    exact Status.defaults_of_rough integral same

/-- What is removed is not the default network's, and goes by its own key unless its name begins
with a slash. -/
theorem Plan.own_of_remove {desired : List Attachment} {observed : List StatusEntry}
    {a : Attachment} (stale : a ∈ (compute desired observed).remove) :
    ∃ e ∈ observed, e.isDefault = false ∧ a = removal e ∧
      (Status.OnlyDefault observed (Status.removalKey a) → e.Slashed) := by
  obtain ⟨e, listed, rfl⟩ := attached_of_remove stale
  obtain ⟨mem, other⟩ := mem_attached.mp listed
  refine ⟨e, mem, other, rfl, ?_⟩
  intro only
  by_contra front
  have own : Status.removalKey (removal e) = e.key := by
    rw [Status.removalKey, removal_statusName_of_not_slashed front, removal_interface,
      StatusEntry.key]
  have default := only.2 e mem own.symm
  rw [other] at default
  cases default

/-- The default network is immune: every status that passes leave has the default entries as they
were, and what a pass removes stands for another entry. -/
theorem default_entries_stay {initial status : Option String} (left : Left initial status)
    {first : List StatusEntry} (read : Pod.observed { status := initial } = .ok first)
    (integral : ∀ e ∈ first, e.Integral) :
    ∃ entries, Pod.observed { status } = .ok entries ∧
      Status.defaults entries = Status.defaults first ∧
      ∀ desired, ∀ a ∈ (Plan.compute desired entries).remove,
        ∃ e ∈ entries, e.isDefault = false ∧ a = Plan.removal e ∧
          (Status.OnlyDefault entries (Status.removalKey a) → e.Slashed) := by
  obtain ⟨entries, present, defaults⟩ :=
    left.defaults_eq read fun e mem => integral e (List.mem_of_mem_filter mem)
  exact ⟨entries, present, defaults, fun _ _ => Plan.own_of_remove⟩

def sampleHome : Pod :=
  { Pass.samplePod with
    status := some
      ("[\x7b\"name\": \"kindnet\", \"default\": true, " ++
        "\"device-info\": \x7b\"slot\": 3\x7d\x7d, " ++
        "\x7b\"name\": \"default/old\", \"interface\": \"eth9\"\x7d]") }

def sampleDefault : StatusEntry :=
  { name := "kindnet", isDefault := true,
    deviceInfo := some (.object [("slot", .number (.int 3))]) }

def sampleWritten : List String :=
  ((Pass.reconcile "default/web").heard (Course.sampleServe sampleHome) ()).filterMap
    Exchange.status?

theorem sampleDefault_integral : sampleDefault.Integral := by
  intro v mem
  cases mem
  apply Json.Value.Integral.object
  intro member mem
  obtain rfl := List.mem_singleton.mp mem
  exact .int 3

theorem sample_default_stays : sampleWritten ≠ [] ∧ ∀ text ∈ sampleWritten, ∃ entries,
    Pod.observed { status := some text } = .ok entries ∧
      Status.defaults entries = [sampleDefault] ∧
      ∀ desired, ∀ a ∈ (Plan.compute desired entries).remove,
        ∃ e ∈ entries, e.isDefault = false ∧ a = Plan.removal e ∧
          (Status.OnlyDefault entries (Status.removalKey a) → e.Slashed) := by
  have writes : sampleWritten ≠ [] := by
    decide +kernel
  have read : Pod.observed { status := sampleHome.status } =
      .ok [sampleDefault, { name := "default/old", interface := "eth9" }] := by
    decide +kernel
  refine ⟨writes, ?_⟩
  intro text wrote
  obtain ⟨x, mem, sent⟩ := List.mem_filterMap.mp wrote
  have left : Left sampleHome.status (some text) := .wrote _ () .start rfl mem sent
  apply default_entries_stay left read
  simp only [List.mem_cons, List.not_mem_nil, or_false, forall_eq_or_imp, forall_eq]
  constructor
  · exact sampleDefault_integral
  · intro v mem
    cases mem

def sampleSlashed : List StatusEntry :=
  [{ name := "kindnet", interface := "eth0", isDefault := true },
    { name := "/kindnet", interface := "eth0" }]

/-- To give up the other entry, the default network's own interface is unplugged. -/
theorem slashed_name_unplugs_default :
    ∃ a ∈ (Plan.compute [] sampleSlashed).remove,
      Status.OnlyDefault sampleSlashed (Status.removalKey a) := by
  refine ⟨{ name := "kindnet", interface := "eth0" }, by decide +kernel, ?_⟩
  constructor
  · exact ⟨_, List.mem_cons_self .., rfl⟩
  · simp only [sampleSlashed, List.mem_cons, List.not_mem_nil, or_false, forall_eq_or_imp,
      forall_eq]
    decide +kernel

end Hotplug
