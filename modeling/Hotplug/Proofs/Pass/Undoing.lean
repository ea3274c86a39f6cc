import Hotplug.Proofs.Pass.Errands
import Hotplug.Proofs.Pass.Overwrites
/-!
What was plugged in under one definition is unplugged under the same. The entry that a pass made
of an answer keeps its network's name and its interface in every status that later passes write,
however often it is read again. Whether a request is made at all is not covered.
-/
namespace Hotplug

open Delegate

variable {e d : StatusEntry} {entries found current : List StatusEntry} {added : List Outcome}
  {removed : List Attachment}

/-- The entry that stands for the key in an index has the network's name and the interface. -/
def StandsFor (e : StatusEntry) (entries : List StatusEntry) : Prop :=
  ∀ d, Index.last? StatusEntry.key (Plan.attached entries) e.key = some d →
    d.name = e.name ∧ d.interface = e.interface

theorem standsFor_rough (same : found.map StatusEntry.rough = entries.map StatusEntry.rough)
    (stands : StandsFor e entries) : StandsFor e found := by
  have rough (es : List StatusEntry) (k : String) :
      Index.last? StatusEntry.key (Plan.attached (es.map StatusEntry.rough)) k =
        (Index.last? StatusEntry.key (Plan.attached es) k).map StatusEntry.rough := by
    rw [attached_rough]
    unfold Index.last?
    rw [← List.map_reverse, List.find?_map]
    rfl
  intro d last
  have mapped := rough found e.key
  rw [same, rough, last] at mapped
  obtain ⟨d', last', alike⟩ := Option.map_eq_some_iff.mp mapped
  obtain ⟨name, interface, -⟩ := StatusEntry.rough_inj alike
  rw [← name, ← interface]
  exact stands d' last'

theorem network_of_reported {o : Outcome} (wa : o.attachment.WellNamed)
    (reported : o.reported? = some e) :
    e.name = namespacedName o.attachment.ns o.attachment.name :=
  (Outcome.reported?_name reported).1.trans (Attachment.statusName_of_ns wa.ns_nonempty)

/-- Entries of one key that were made for well named attachments tell the same. -/
theorem alike_of_reported {o : Outcome} {ns name : String} (wa : o.attachment.WellNamed)
    (reported : o.reported? = some d) (network : e.name = namespacedName ns name)
    (ns_clean : Clean ns) (name_clean : Clean name) (key : d.key = e.key) :
    d.name = e.name ∧ d.interface = e.interface := by
  have own := network_of_reported wa reported
  rw [StatusEntry.key, StatusEntry.key, own, network, namespacedName, namespacedName] at key
  obtain ⟨rfl, rfl, interface⟩ := segments_unique key wa.ns_clean ns_clean wa.name_clean name_clean
  exact ⟨own.trans network.symm, interface⟩

section
variable (wellNamed : ∀ o ∈ added, o.attachment.WellNamed) {ns name : String}
  (network : e.name = namespacedName ns name) (ns_clean : Clean ns) (name_clean : Clean name)
include wellNamed network ns_clean name_clean

/-- A merge keeps what stands for the entry, and so does a new entry of its key. -/
theorem standsFor_merge
    (stands : StandsFor e current ∨ ∃ o ∈ added, o.reported? = some e) :
    StandsFor e (Status.merge current added removed) := by
  have valid : ∀ o ∈ added, o.isValid = true := by
    intro o mem
    simpa [Outcome.isValid] using (wellNamed o mem).name_nonempty
  intro d last
  rw [attached_merge valid, Index.last?_append] at last
  rcases Option.or_eq_some_iff.mp last with new | ⟨none, old⟩
  · obtain ⟨mem, key⟩ := Index.last?_mem new
    obtain ⟨o, made, reported⟩ := List.mem_filterMap.mp mem
    exact alike_of_reported (wellNamed o made) reported network ns_clean name_clean key
  · rcases stands with stands | ⟨o, made, reported⟩
    · obtain ⟨mem, key⟩ := Index.last?_mem old
      have stays : e.key ∉ Status.gone removed := by
        rw [← key]
        simpa using (List.mem_filter.mp mem).2
      apply stands d
      rw [← old]
      refine (Index.last?_filter ?_).symm
      intro c _ own
      simpa [own] using stays
    · have listed := List.mem_filterMap.mpr ⟨o, made, reported⟩
      obtain ⟨c, last⟩ := Index.exists_last? (Index.mem_keys.mpr ⟨e, listed, rfl⟩)
      rw [last] at none
      cases none

end

theorem Plan.removal_of_name {ns name : String} (network : d.name = namespacedName ns name)
    (clean : Clean ns) :
    Plan.removal d = { ns := ns, name := name, interface := d.interface } := by
  have chars : d.name.toList = ns.toList ++ '/' :: name.toList := by
    simp [network, namespacedName]
  unfold Plan.removal
  rw [chars, Text.splitOnce_append clean]
  simp

/-- A pass that looked up the pod, in a world whose pods have a namespace and whose definitions
are found by their own names, in which there are no slashes. -/
structure Sees {σ : Type} (handle : (e : Effect) → σ → e.Answer × σ) (s : σ)
    (key ns name : String) (pod : Pod) : Prop where
  front : ((Pass.reconcile key).heard handle s).head? = some ⟨.findPod ns name, some pod⟩
  spaced : pod.ns.getD "" ≠ ""
  finds : ∀ t ns name definition, (handle (.findDefinition ns name) t).1 = some definition →
    definition.isNamed ns name = true
  names : ∀ t ns name definition, (handle (.findDefinition ns name) t).1 = some definition →
    (definition.ns.getD "" ≠ "" ∧ Clean (definition.ns.getD "")) ∧
      definition.name.getD "" ≠ "" ∧ Clean (definition.name.getD "")

/-- The statuses that passes leave once a text was written, each of which read one of them. -/
inductive Since (text : String) : Option String → Prop
  | start : Since text (some text)
  | wrote {σ : Type} {handle : (e : Effect) → σ → e.Answer × σ} {s : σ} {key ns name : String}
      {pod : Pod} {next : String} :
    Since text pod.status → Sees handle s key ns name pod →
    (ns, name, next) ∈ ((Pass.reconcile key).heard handle s).filterMap Exchange.write? →
    Since text (some next)

namespace Pass

variable {key ns name : String} {pod : Pod} {heard : List Exchange}

/-- The target is the pod, under the name by which it was looked up. -/
structure Target.Is (target : Target) (ns name : String) (pod : Pod) : Prop where
  ns : target.ns = ns
  name : target.name = name
  uid : pod.uid = some target.uid

theorem tasks_quiet (quiet : Quiet heard) (command : Command) (wanted : List Attachment) :
    tasks command wanted heard = [] := by
  rw [tasks, errands_quiet quiet, List.filter_nil, List.zip_nil_right]

theorem Ran.tasks_serve (ran : Ran key heard)
    (front : heard.head? = some ⟨.findPod ns name, some pod⟩) :
    (∀ p ∈ tasks .add (planOf pod).add heard, ∃ target : Target, target.Is ns name pod ∧
      Serves target .add p.1 p.2 ∧ Counts p.2 p.1 (outcomes .add (planOf pod).add heard)) ∧
    ∀ p ∈ tasks .del (planOf pod).remove heard, ∃ target : Target, target.Is ns name pod ∧
      Serves target .del p.1 p.2 := by
  cases ran with
  | idle quiet =>
    rw [tasks_quiet quiet, tasks_quiet quiet]
    exact ⟨by simp, by simp⟩
  | @busy _ _ uid netns sandboxId _ located later desired observed adds dels last result reading
      found carried =>
    cases front
    obtain ⟨-, plan⟩ := planOf_read reading
    have quiet : Quiet (⟨.findPod ns name, some pod⟩ :: located) := quiet_found found.quiet
    obtain ⟨added, removed⟩ := carried.tasks_serve quiet
    have is : Target.Is ⟨pod, key, ns, name, uid, sandboxId, netns⟩ ns name pod :=
      ⟨rfl, rfl, (read_ok reading).2.2⟩
    rw [plan, ← List.cons_append, quiet.outcomes_behind, carried.outcomes_add]
    exact ⟨fun p mem => ⟨_, is, added p mem⟩, fun p mem => ⟨_, is, removed p mem⟩⟩

end Pass

section
variable {σ : Type} {handle : (e : Effect) → σ → e.Answer × σ} {s : σ} {key ns name : String}
  {pod : Pod}

theorem Sees.wellNamed (sees : Sees handle s key ns name pod) :
    ∀ o ∈ outcomes .add (planOf pod).add ((Pass.reconcile key).heard handle s),
      o.attachment.WellNamed := by
  have ran := Pass.ran_heard handle s key
  have front := sees.front
  generalize heard : (Pass.reconcile key).heard handle s = h at ran front ⊢
  cases ran with
  | idle quiet =>
    rw [outcomes, quiet.accepted, List.zip_nil_right]
    exact fun o mem => absurd mem List.not_mem_nil
  | @busy _ _ uid netns sandboxId _ located later desired observed adds dels last result reading
      found carried =>
    cases front
    obtain ⟨wanted, -⟩ := Pass.read_ok reading
    obtain ⟨-, plan⟩ := planOf_read reading
    have quiet : Quiet (⟨.findPod ns name, some pod⟩ :: located) := Pass.quiet_found found.quiet
    rw [plan, ← List.cons_append, quiet.outcomes_behind, carried.outcomes_add]
    intro o done
    have asked := Plan.mem_desired_of_add (carried.additions.mem_wanted o done)
    have spaced := Pod.desired_spaced sees.spaced wanted o.attachment asked
    obtain ⟨definition, looked⟩ := carried.additions.found_of_achieved o done
    have mem : Exchange.mk (.findDefinition (Pass.definitionNs ⟨pod, key, ns, name, uid, sandboxId,
        netns⟩ o.attachment) o.attachment.name) (some definition) ∈
        (Pass.reconcile key).heard handle s := by
      rw [heard, carried.in_order]
      simp [looked]
    obtain ⟨t, answer⟩ := Action.answered_of_heard mem
    have named := sees.finds t _ _ definition answer.symm
    obtain ⟨⟨-, ns_clean⟩, name_nonempty, name_clean⟩ := sees.names t _ _ definition answer.symm
    simp only [Definition.isNamed, Bool.and_eq_true, beq_iff_eq] at named
    have own : Pass.definitionNs ⟨pod, key, ns, name, uid, sandboxId, netns⟩ o.attachment =
        o.attachment.ns := by simp [Pass.definitionNs, spaced]
    rw [named.1, own] at ns_clean
    rw [named.2] at name_nonempty name_clean
    exact ⟨spaced, name_nonempty, ns_clean, name_clean⟩

theorem Sees.merges (sees : Sees handle s key ns name pod) {podNs podName text : String}
    (wrote : (podNs, podName, text) ∈
      ((Pass.reconcile key).heard handle s).filterMap Exchange.write?) :
    ∃ observed found removed, (podNs = ns ∧ podName = name) ∧
      Merges pod ((Pass.reconcile key).heard handle s) text observed found removed := by
  rcases writes_of_ran (Pass.ran_heard handle s key) with nothing | ⟨ns', name', pod', text',
    observed, found, removed, front, writes, merges⟩
  · rw [nothing] at wrote
    cases wrote
  · have same := Option.some.inj (sees.front.symm.trans front)
    cases same
    rw [writes, List.mem_singleton] at wrote
    cases wrote
    exact ⟨observed, found, removed, ⟨rfl, rfl⟩, merges⟩

end

section
variable {ns name text : String} (network : e.name = namespacedName ns name) (ns_clean : Clean ns)
  (name_clean : Clean name)
include network ns_clean name_clean

/-- A written status keeps what stood for the entry before, or what was made of an answer. -/
theorem Merges.stands {pod : Pod} {heard : List Exchange}
    (merges : Merges pod heard text current found removed)
    (wellNamed : ∀ o ∈ outcomes .add (planOf pod).add heard, o.attachment.WellNamed)
    (stands : StandsFor e current ∨
      ∃ o ∈ outcomes .add (planOf pod).add heard, o.reported? = some e) :
    StandsFor e found :=
  standsFor_rough merges.same (standsFor_merge wellNamed network ns_clean name_clean stands)

/-- What stands for an entry in one status does so in all that passes leave later. -/
theorem Since.stands {status : Option String} (since : Since text status)
    (start : ∀ entries, Status.parse text = .ok entries → StandsFor e entries) :
    ∀ entries, Pod.observed { status } = .ok entries → StandsFor e entries := by
  induction since with
  | start => exact start
  | @wrote _ handle s key _ _ pod next _ sees wrote ih =>
    intro entries parsed
    obtain ⟨observed, found, removed, -, merges⟩ := sees.merges wrote
    obtain rfl := Except.ok.inj (merges.parsed.symm.trans parsed)
    exact merges.stands network ns_clean name_clean sees.wellNamed (.inl (ih observed merges.read))

end

/-- What a pass made of an answer stands for itself in the status that it wrote, and in all that
passes leave later. -/
theorem Sees.stands {σ : Type} {handle : (e : Effect) → σ → e.Answer × σ} {s : σ}
    {key ns name text : String} {pod later : Pod} {o : Outcome}
    (sees : Sees handle s key ns name pod)
    (made : o ∈ outcomes .add (planOf pod).add ((Pass.reconcile key).heard handle s))
    (reported : o.reported? = some e)
    (recorded : (ns, name, text) ∈
      ((Pass.reconcile key).heard handle s).filterMap Exchange.write?)
    (since : Since text later.status) (read : later.observed = .ok entries) :
    StandsFor e entries := by
  have wa := sees.wellNamed o made
  have network := network_of_reported wa reported
  refine since.stands network wa.ns_clean wa.name_clean ?_ entries read
  intro entries parsed
  obtain ⟨_, found, _, -, merges⟩ := sees.merges recorded
  obtain rfl := Except.ok.inj (merges.parsed.symm.trans parsed)
  exact merges.stands network wa.ns_clean wa.name_clean sees.wellNamed (.inr ⟨o, made, reported⟩)

/-- The errand looks up the definition that the other one did, asks for the interface of the entry
and for nothing else, on the same pod. If the definition is still the same, so is the plugin's
configuration. -/
structure Errand.Undoes (y x : Errand) (e : StatusEntry) : Prop where
  ns : y.ns = x.ns
  name : y.name = x.name
  interface : y.request.interface = e.interface
  pod : y.request.podNs = x.request.podNs ∧ y.request.podName = x.request.podName ∧
    y.request.podUid = x.request.podUid
  config : y.definition = x.definition → y.request.config = x.request.config
  bare : y.request.attributes = none

/-- What a pass plugged in and recorded is unplugged again, by any later pass, through the same
definition and from the same pod, under the interface that was recorded. -/
theorem unplugged_as_plugged {σ τ : Type} {handle : (e : Effect) → σ → e.Answer × σ} {s : σ}
    {handle' : (e : Effect) → τ → e.Answer × τ} {t : τ} {key key' podNs podName text : String}
    {pod pod' : Pod} {a r : Attachment} {x y : Errand} {observed : List StatusEntry}
    (sees : Sees handle s key podNs podName pod)
    (plugged : (a, x) ∈ tasks .add (planOf pod).add ((Pass.reconcile key).heard handle s))
    (reported : (x.outcome a).reported? = some e)
    (recorded : (podNs, podName, text) ∈
      ((Pass.reconcile key).heard handle s).filterMap Exchange.write?)
    (since : Since text pod'.status)
    (again : ((Pass.reconcile key').heard handle' t).head? =
      some ⟨.findPod podNs podName, some pod'⟩)
    (same : pod'.uid = pod.uid) (read : pod'.observed = .ok observed)
    (unplugged : (r, y) ∈ tasks .del (planOf pod').remove ((Pass.reconcile key').heard handle' t))
    (own : Plan.removalOf? observed e.key = some r) :
    y.Undoes x e := by
  obtain ⟨target, is, serves, counts⟩ :=
    ((Pass.ran_heard handle s key).tasks_serve sees.front).1 _ plugged
  obtain ⟨target', is', serves'⟩ :=
    ((Pass.ran_heard handle' t key').tasks_serve again).2 _ unplugged
  have made := counts e reported
  have wa : a.WellNamed := sees.wellNamed _ made
  have network : e.name = namespacedName a.ns a.name := network_of_reported wa reported
  obtain ⟨d, last, rfl⟩ := Option.map_eq_some_iff.mp own
  obtain ⟨name, interface⟩ := sees.stands made reported recorded since read d last
  rw [Plan.removal_of_name (name.trans network) wa.ns_clean] at serves'
  obtain ⟨definition, config, defined, usable, request⟩ := serves.made
  obtain ⟨definition', config', defined', usable', request'⟩ := serves'.made
  have uid : target'.uid = target.uid := by
    rw [← Option.some_inj, ← is.uid, ← is'.uid, same]
  refine ⟨?_, ?_, ?_, ?_, ?_, ?_⟩
  · rw [serves.ns, serves'.ns]
    simp [Pass.definitionNs, wa.ns_nonempty]
  · rw [serves.name, serves'.name]
  · rw [request']
    exact interface
  · rw [request, request']
    exact ⟨is'.ns.trans is.ns.symm, is'.name.trans is.name.symm, uid⟩
  · intro unchanged
    rw [defined, defined'] at unchanged
    obtain rfl := Option.some.inj unchanged
    obtain rfl := Except.ok.inj (usable.symm.trans usable')
    rw [request, request']
    rfl
  · rw [request']
    rfl

def soleDefinition : Definition :=
  { ns := some "default", name := some "net1", config := some "\x7b\x7d" }

def soleWorld (pod : Pod) : (e : Effect) → Unit → e.Answer × Unit
  | .findPod _ _, s => (some pod, s)
  | .findDefinition ns name, s =>
    (if soleDefinition.isNamed ns name then some soleDefinition else none, s)
  | e, s => Pass.sampleWorld e s

def askingPod : Pod :=
  { Pass.samplePod with
    networks := some ("[\x7b\"name\": \"net1\", \"interface\": \"eth1\", " ++
      "\"mac\": \"02:00:00:00:00:01\"\x7d]")
    status := none }

def recordedEntry : StatusEntry := { name := "default/net1", interface := "eth1" }

def askedPod : Pod :=
  { askingPod with networks := none, status := some (Status.serialize [recordedEntry]) }

def plugging : Errand where
  ns := "default"
  name := "net1"
  definition := some soleDefinition
  request :=
    { command := .add
      sandboxId := "s1"
      netns := "/n"
      interface := "eth1"
      podNs := "default"
      podName := "web"
      podUid := "u1"
      config := Text.bytesOf "\x7b\"name\":\"net1\"\x7d"
      attributes := some { ips := [], mac := "02:00:00:00:00:01", arguments := none } }
  answer := .ok { result := some { interfaces := [{ name := "eth1", sandbox := "/n" }] } }

def unplugging : Errand :=
  { plugging with request := { plugging.request with command := .del, attributes := none } }

theorem sees_sole : Sees (soleWorld askingPod) () "default/web" "default" "web" askingPod := by
  have only : ∀ t ns name definition,
      (soleWorld askingPod (.findDefinition ns name) t).1 = some definition →
        definition = soleDefinition ∧ soleDefinition.isNamed ns name = true := by
    intro t ns name definition answer
    simp only [soleWorld] at answer
    split at answer
    · rename_i named
      exact ⟨(Option.some.inj answer).symm, named⟩
    · cases answer
  refine ⟨rfl, by decide, ?_, ?_⟩
  · intro t ns name definition answer
    obtain ⟨rfl, named⟩ := only t ns name definition answer
    exact named
  · intro t ns name definition answer
    obtain ⟨rfl, -⟩ := only t ns name definition answer
    simp [soleDefinition, Clean]

theorem sample_unplugged :
    unplugging ∈ (tasks .del (planOf askedPod).remove
      ((Pass.reconcile "default/web").heard (soleWorld askedPod) ())).map (·.2) ∧
    unplugging.Undoes plugging recordedEntry := by
  have plugged : (⟨"net1", "default", [], "02:00:00:00:00:01", "", "eth1", none⟩, plugging) ∈
      tasks .add (planOf askingPod).add
        ((Pass.reconcile "default/web").heard (soleWorld askingPod) ()) := by
    decide +kernel
  have recorded : ("default", "web", Status.serialize [recordedEntry]) ∈
      ((Pass.reconcile "default/web").heard (soleWorld askingPod) ()).filterMap
        Exchange.write? := by
    decide +kernel
  have unplugged : (Plan.removal recordedEntry, unplugging) ∈ tasks .del (planOf askedPod).remove
      ((Pass.reconcile "default/web").heard (soleWorld askedPod) ()) := by
    decide +kernel
  have since : Since (Status.serialize [recordedEntry]) askedPod.status := .start
  have read : askedPod.observed = .ok [recordedEntry] := by decide +kernel
  exact ⟨List.mem_map_of_mem unplugged,
    unplugged_as_plugged sees_sole plugged (by decide +kernel) recorded since rfl rfl read
      unplugged (by decide +kernel)⟩

end Hotplug
