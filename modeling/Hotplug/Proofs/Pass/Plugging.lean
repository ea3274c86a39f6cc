import Hotplug.Proofs.Attachment.Desired
import Hotplug.Proofs.Pass.Ledger
import Hotplug.Proofs.Plan.Unmet
import Hotplug.Proofs.Status.Codec
import Hotplug.Proofs.Status.Merge
/-!
A pass under the ledger's rules. It only asks for interfaces that its plan adds, and none of
those is held, since what is held is listed in the status that the pass read. What it writes lists
what is held then. How it goes on after a status that was refused is not covered.
-/
namespace Hotplug.Pass

open Delegate Ledger

variable {target : Target} {command : Command} {a : Attachment} {s : Ledger}

def plugOf (target : Target) (a : Attachment) : Plug :=
  ⟨definitionNs target a, a.name, a.interface⟩

theorem plugOf_spaced (spaced : a.ns ≠ "") : plugOf target a = ⟨a.ns, a.name, a.interface⟩ := by
  simp [plugOf, definitionNs, spaced]

def carryOut (command : Command) (held : List Plug) (p : Plug) : List Plug :=
  match command with
  | .add => p :: held
  | .del => held.filter (· ≠ p)

/-- An attempt that succeeded, on a network with a definition. -/
structure Success (target : Target) (command : Command) (o : Outcome) : Prop where
  wellNamed : (plugOf target o.attachment).WellNamed
  reports : command = .add → ∃ e, o.reported? = some e ∧ e.interface = o.attachment.interface

structure Still (s t : Ledger) : Prop where
  status : t.status = s.status
  held : held t.log = held s.log

def seeking (s : Ledger) (target : Target) (a : Attachment) : Ledger :=
  { s with sought := (definitionNs target a, a.name) }

theorem obeys_prepare {post : Except PassFault Request → Ledger → Prop}
    (failed : ∀ fault, post (.error fault) (seeking s target a))
    (ready : ∀ config, definitionNs target a ≠ "" ∧ a.name ≠ "" ∧
      Clean (definitionNs target a) ∧ Clean a.name →
      post (.ok (request target command a config)) (seeking s target a)) :
    (prepare target command a).Obeys rules s post := by
  rw [prepare, Action.obeys_bind]
  refine obeys_asked trivial fun found lawful => ?_
  cases found with
  | none => exact failed _
  | some definition =>
    have named := lawful rfl
    simp only [Action.obeys_pure]
    cases definition.pluginConfig with
    | error fault => exact failed _
    | ok config => exact ready config named

theorem obeys_delegate {post : Except PassFault Response → Ledger → Prop}
    (free : command = .add → plugOf target a ∉ held s.log)
    (failed : ∀ fault t, Still s t → post (.error fault) t)
    (done : ∀ response t, t.status = s.status →
      held t.log = carryOut command (held s.log) (plugOf target a) →
      Success target command ⟨a, some response⟩ → post (.ok response) t) :
    (delegate target command a).Obeys rules s post := by
  rw [delegate, Action.obeys_bind]
  refine obeys_prepare (fun fault => failed fault _ ⟨rfl, rfl⟩) fun config named => ?_
  refine obeys_asked free fun answer lawful => ?_
  have wellNamed (clean : Clean a.interface) : (plugOf target a).WellNamed :=
    ⟨named.1, named.2.1, named.2.2.1, named.2.2.2, clean⟩
  cases answer with
  | error fault => cases command <;> exact failed _ _ ⟨rfl, rfl⟩
  | ok response =>
    obtain ⟨clean, reports⟩ := lawful response rfl
    cases command with
    | del => exact done response _ rfl rfl ⟨wellNamed clean, by simp⟩
    | add =>
      obtain ⟨result⟩ := response
      cases result with
      | none => exact failed _ _ ⟨rfl, rfl⟩
      | some result =>
        have same := reports result rfl rfl
        exact done ⟨some result⟩ _ rfl rfl ⟨wellNamed clean, fun _ => ⟨_, rfl, same⟩⟩

@[simp]
theorem obeys_announce {succeeded : Bool} {post : Unit → Ledger → Prop} :
    (announce target command succeeded a).Obeys rules s post ↔ post () s :=
  obeys_publish

theorem obeys_attempt {post : Except PassFault Response → Ledger → Prop}
    (free : command = .add → plugOf target a ∉ held s.log)
    (failed : ∀ fault t, Still s t → post (.error fault) t)
    (done : ∀ response t, t.status = s.status →
      held t.log = carryOut command (held s.log) (plugOf target a) →
      Success target command ⟨a, some response⟩ → post (.ok response) t) :
    (attempt target command a).Obeys rules s post := by
  rw [attempt, Action.obeys_bind, obeys_tell, Action.obeys_bind]
  refine obeys_delegate free ?_ ?_
  · intro fault t still
    simpa using failed fault t still
  · intro response t status carried success
    simpa using done response t status carried success

structure Attempted (target : Target) (command : Command) (wanted : List Attachment)
    (s t : Ledger) (outcomes : List Outcome) : Prop where
  status : t.status = s.status
  held : held t.log =
    (outcomes.map fun o => plugOf target o.attachment).foldl (carryOut command) (held s.log)
  success : ∀ o ∈ outcomes, o.attachment ∈ wanted ∧ Success target command o

theorem obeys_attemptAll {wanted : List Attachment}
    (distinct : command = .add → (wanted.map (plugOf target)).Nodup)
    (free : command = .add → ∀ a ∈ wanted, plugOf target a ∉ held s.log) :
    (attemptAll target command wanted).Obeys rules s
      fun found t => Attempted target command wanted s t found.1 := by
  induction wanted generalizing s with
  | nil => exact ⟨rfl, rfl, by simp⟩
  | cons a wanted ih =>
    rw [attemptAll, Action.obeys_bind]
    refine obeys_attempt (fun adds => free adds a (by simp)) ?_ ?_
    · intro fault t still
      exact ⟨still.status, still.held, by simp⟩
    · intro response t status carried success
      simp only [Action.obeys_bind, Action.obeys_pure]
      refine (ih ?_ ?_).mono ?_
      · intro adds
        exact (List.nodup_cons.mp (distinct adds)).2
      · intro adds b hb
        subst adds
        -- what was just plugged in is held now: only different requests are still free
        rw [carried, carryOut, List.mem_cons, not_or]
        refine ⟨?_, free rfl b (List.mem_cons_of_mem a hb)⟩
        intro same
        have first := (List.nodup_cons.mp (distinct rfl)).1
        exact first (List.mem_map.mpr ⟨b, hb, same⟩)
      · intro found u all
        refine ⟨all.status.trans status, by simp [all.held, carried], ?_⟩
        intro o mem
        rcases List.mem_cons.mp mem with rfl | later
        · exact ⟨by simp, success⟩
        · obtain ⟨mem, success⟩ := all.success o later
          exact ⟨List.mem_cons_of_mem a mem, success⟩

theorem mem_added {p : Plug} {ps held : List Plug} :
    p ∈ ps.foldl (carryOut .add) held ↔ p ∈ ps ∨ p ∈ held := by
  induction ps generalizing held with
  | nil => simp
  | cons q ps ih =>
    rw [List.foldl_cons, ih]
    simp only [carryOut, List.mem_cons]
    tauto

theorem mem_removed {p : Plug} {ps held : List Plug} :
    p ∈ ps.foldl (carryOut .del) held ↔ p ∈ held ∧ p ∉ ps := by
  induction ps generalizing held with
  | nil => simp
  | cons q ps ih =>
    rw [List.foldl_cons, ih]
    simp only [carryOut, List.mem_filter, List.mem_cons, decide_eq_true_eq]
    tauto

/-- An attached entry of the network and the interface. -/
def Listed (entries : List StatusEntry) (p : Plug) : Prop :=
  ∃ e ∈ Plan.attached entries, e.name = p.network ∧ e.interface = p.interface

/-- Whoever can read the status finds the interface there. -/
def Shows (status : Option String) (p : Plug) : Prop :=
  ∃ raw, status = some raw ∧ ∀ entries, Status.parse raw = .ok entries → Listed entries p

/-- The last status shows all that is held. -/
def Told (s : Ledger) : Prop := ∀ p ∈ held s.log, p.WellNamed ∧ Shows s.status p

theorem shows_serialize {entries : List StatusEntry} {p : Plug}
    (sound : ∀ e ∈ entries, e.Sound Status.deviceDepth) (listed : Listed entries p) :
    Shows (some (Status.serialize entries)) p := by
  obtain ⟨back, parsed, same⟩ := Status.parse_written sound
  refine ⟨_, rfl, fun found read => ?_⟩
  obtain rfl := Except.ok.inj (parsed.symm.trans read)
  obtain ⟨e, mem, name, interface⟩ := listed
  obtain ⟨listed, kept⟩ := Plan.mem_attached.mp mem
  have told : e.rough ∈ back.map StatusEntry.rough := same ▸ List.mem_map_of_mem listed
  obtain ⟨f, hf, eq⟩ := List.mem_map.mp told
  obtain ⟨sameName, sameInterface, sameDefault⟩ := StatusEntry.rough_inj eq
  exact ⟨f, Plan.mem_attached.mpr ⟨hf, sameDefault.trans kept⟩, sameName.trans name,
    sameInterface.trans interface⟩

theorem plugOf_of_removalKey {p : Plug} (wa : (plugOf target a).WellNamed) (wp : p.WellNamed)
    (same : Status.removalKey a = p.network ++ "/" ++ p.interface) : plugOf target a = p := by
  unfold Status.removalKey Plug.network namespacedName at same
  by_cases spaced : a.ns = ""
  · have plain : a.statusName = a.name := by simp [Attachment.statusName, spaced]
    rw [plain, joined_assoc] at same
    have tails := (segment_unique same wa.name_clean wp.ns_clean).2
    have clean : Clean a.interface := wa.interface_clean
    exact absurd (tails ▸ clean) (not_clean_joined _ _)
  · rw [plugOf_spaced spaced] at wa ⊢
    rw [Attachment.statusName_of_ns spaced] at same
    obtain ⟨ns, name, interface⟩ :=
      segments_unique same wa.ns_clean wp.ns_clean wa.name_clean wp.name_clean
    rw [ns, name, interface]

section
variable {observed : List StatusEntry} {added removed : List Outcome} {p : Plug}

theorem listed_of_kept (listed : Listed observed p) (wp : p.WellNamed)
    (success : ∀ o ∈ removed, Success target .del o)
    (kept : p ∉ removed.map fun o => plugOf target o.attachment) :
    Listed (Status.merge observed added (removed.map (·.attachment))) p := by
  obtain ⟨e, mem, name, interface⟩ := listed
  refine ⟨e, Status.mem_attached_merge.mpr (.inl ⟨mem, ?_⟩), name, interface⟩
  intro struck
  obtain ⟨r, hr, key⟩ := List.mem_map.mp struck
  obtain ⟨o, ho, rfl⟩ := List.mem_map.mp hr
  rw [StatusEntry.key, name, interface] at key
  exact kept (List.mem_map.mpr ⟨o, ho, plugOf_of_removalKey (success o ho).wellNamed wp key⟩)

theorem listed_of_added {o : Outcome} (mem : o ∈ added) (success : Success target .add o)
    (spaced : o.attachment.ns ≠ "") (removed : List Attachment) :
    Listed (Status.merge observed added removed) (plugOf target o.attachment) := by
  obtain ⟨e, reported, interface⟩ := success.reports rfl
  have valid : o.isValid = true := by
    simpa [Outcome.isValid, plugOf] using success.wellNamed.name_nonempty
  refine ⟨e, Status.mem_attached_merge.mpr (.inr ⟨o, mem, valid, reported⟩), ?_, interface⟩
  rw [(Outcome.reported?_name reported).1, Attachment.statusName_of_ns spaced,
    plugOf_spaced spaced]
  rfl

end

variable {desired : List Attachment} {observed : List StatusEntry}

theorem obeys_persist {added removed : List Outcome} {post : Unit → Ledger → Prop}
    (idle : added = [] → removed = [] → post () s)
    (written : post () { s with
      status := some (Status.serialize
        (Status.merge observed added (removed.map (·.attachment)))) }) :
    (persist target observed added removed).Obeys rules s post := by
  unfold persist
  split
  · rw [Action.obeys_bind]
    refine obeys_asked trivial fun outcome lawful => ?_
    obtain rfl : outcome = .ok () := lawful
    exact written
  · rename_i nothing
    simp only [Bool.or_eq_true, Bool.not_eq_true', not_or, Bool.not_eq_false,
      List.isEmpty_iff] at nothing
    exact idle nothing.1 nothing.2

section
variable (spaced : ∀ a ∈ desired, a.ns ≠ "")
include spaced

theorem add_plugs_nodup :
    ((Plan.compute desired observed).add.map (plugOf target)).Nodup := by
  have keys : ((Plan.compute desired observed).add.map Attachment.key).Nodup :=
    Plan.add_keys_nodup
  rw [List.Nodup, List.pairwise_map] at keys ⊢
  refine keys.imp_of_mem fun {a b} ha hb ne same => ne ?_
  rw [plugOf_spaced (spaced a (Plan.mem_desired_of_add ha)),
    plugOf_spaced (spaced b (Plan.mem_desired_of_add hb)), Plug.mk.injEq] at same
  obtain ⟨ns, name, interface⟩ := same
  simp [Attachment.key, ns, name, interface]

theorem unheld_of_add (told : Told s) (seen : ∀ p ∈ held s.log, Listed observed p)
    (unmet : a ∈ (Plan.compute desired observed).add) : plugOf target a ∉ held s.log := by
  intro mem
  have ns := spaced a (Plan.mem_desired_of_add unmet)
  have wp := (told _ mem).1
  obtain ⟨e, he, name, interface⟩ := seen _ mem
  rw [plugOf_spaced ns] at wp name
  have wa : a.WellNamed := ⟨ns, wp.name_nonempty, wp.ns_clean, wp.name_clean⟩
  refine Plan.unattached_of_add unmet wa spaced e he ?_ interface
  rw [name, Attachment.statusName_of_ns ns]
  rfl

theorem obeys_execute (sound : ∀ e ∈ observed, e.Sound Status.deviceDepth) (told : Told s)
    (seen : ∀ p ∈ held s.log, Listed observed p) :
    (execute target observed (Plan.compute desired observed)).Obeys rules s fun _ => Told := by
  rw [execute, Action.obeys_bind]
  refine (obeys_attemptAll (fun _ => add_plugs_nodup spaced)
    fun _ _ => unheld_of_add spaced told seen).mono fun found t adds => ?_
  obtain ⟨added, addFault⟩ := found
  rw [Action.obeys_bind]
  refine (obeys_attemptAll (by simp) (by simp)).mono fun found u dels => ?_
  obtain ⟨removed, removeFault⟩ := found
  rw [Action.obeys_bind]
  refine obeys_persist ?_ ?_
  · rintro rfl rfl
    have status : u.status = s.status := dels.status.trans adds.status
    have same : held u.log = held s.log := dels.held.trans adds.held
    show Told u
    rwa [Told, status, same]
  · intro p mem
    have held : p ∈ held u.log := mem
    rw [dels.held, mem_removed, adds.held, mem_added] at held
    obtain ⟨held, kept⟩ := held
    rcases held with new | old
    -- what was plugged in now is recorded; what was held is listed, and no removal strikes it
    · obtain ⟨o, ho, rfl⟩ := List.mem_map.mp new
      obtain ⟨asked, success⟩ := adds.success o ho
      have ns := spaced _ (Plan.mem_desired_of_add asked)
      exact ⟨success.wellNamed,
        shows_serialize (Status.merge_sound sound _ _) (listed_of_added ho success ns _)⟩
    · have wp := (told p old).1
      exact ⟨wp, shows_serialize (Status.merge_sound sound _ _)
        (listed_of_kept (seen p old) wp (fun o ho => (dels.success o ho).2) kept)⟩

end

def AsksRuntime : Effect → Prop
  | .listSandboxes _ => True
  | .sandboxStatus _ => True
  | _ => False

theorem asks_find (uid : String) : (Sandbox.find uid).Asks AsksRuntime := by
  unfold Sandbox.find
  exact (Action.asks_ask.mpr trivial).bind fun _ => trivial

theorem asks_findNetns (uid : String) : (Sandbox.findNetns uid).Asks AsksRuntime := by
  unfold Sandbox.findNetns
  apply (asks_find uid).bind
  intro found
  cases found with
  | error fault => trivial
  | ok sandbox => exact (Action.asks_ask.mpr trivial).bind fun _ => trivial

theorem asks_locate (uid : String) : (locate uid).Asks AsksRuntime := by
  unfold locate
  apply (asks_findNetns uid).bind
  intro found
  cases found with
  | error fault => trivial
  | ok netns =>
    apply (asks_find uid).bind
    intro found
    cases found <;> trivial

theorem obeys_locate {uid : String}
    {post : Except PassFault (String × String) → Ledger → Prop} (all : ∀ found, post found s) :
    (locate uid).Obeys rules s post := by
  have still : (locate uid).Obeys rules s fun _ t => t = s := by
    apply (asks_locate uid).obeys
    · rintro t e rfl asked
      cases e with
      | listSandboxes request => exact ⟨trivial, fun _ _ => rfl⟩
      | sandboxStatus request => exact ⟨trivial, fun _ _ => rfl⟩
      | _ => cases asked
    · rfl
  apply still.mono
  rintro found t rfl
  exact all found

theorem ok_of_mapError {α ε δ : Type} {x : Except ε α} {f : ε → δ} {a : α}
    (ok : x.mapError f = .ok a) : x = .ok a := by
  cases x with
  | error fault => cases ok
  | ok b => rw [Except.ok.inj ok]

theorem read_ok {key : String} {pod : Pod} {reading : Reading} (ok : read key pod = .ok reading) :
    pod.desired = .ok reading.desired ∧ pod.observed = .ok reading.observed ∧
      pod.uid = some reading.uid := by
  unfold read at ok
  obtain ⟨desired, wanted, ok⟩ := Json.bind_ok.mp ok
  obtain ⟨observed, present, ok⟩ := Json.bind_ok.mp ok
  cases known : pod.uid with
  | none =>
    rw [known] at ok
    cases ok
  | some uid =>
    rw [known] at ok
    obtain rfl := Except.ok.inj ok
    exact ⟨ok_of_mapError wanted, ok_of_mapError present, rfl⟩

theorem listed_of_shows {pod : Pod} {p : Plug} (visible : Shows pod.status p)
    (read : pod.observed = .ok observed) : Listed observed p := by
  obtain ⟨raw, status, listed⟩ := visible
  simp only [Pod.observed, status] at read
  exact listed observed read

theorem obeys_reconcilePod {key ns name : String} {pod : Pod} (told : Told s)
    (shown : ∀ p ∈ held s.log, Shows pod.status p) (spaced : pod.ns.getD "" ≠ "") :
    (reconcilePod key ns name pod).Obeys rules s fun _ => Told := by
  unfold reconcilePod
  cases reading : read key pod with
  | error fault => exact told
  | ok found =>
    obtain ⟨desired, observed, -⟩ := read_ok reading
    simp only [Action.obeys_bind]
    refine obeys_locate fun place => ?_
    cases place with
    | error fault => exact told
    | ok place =>
      simp only
      split
      · exact told
      · exact obeys_execute (Pod.desired_spaced spaced desired) (Pod.observed_sound observed) told
          fun p mem => listed_of_shows (shown p mem) observed

theorem obeys_refuse {key : String} {pod : Pod} {post : Unit → Ledger → Prop} (all : post () s) :
    (refuse key pod).Obeys rules s post := by
  unfold refuse
  split
  · rw [Action.obeys_bind, obeys_tell]
    exact obeys_publish.mpr all
  · exact all

theorem obeys_reconcile (key : String) (told : Told s) :
    (reconcile key).Obeys rules s fun _ => Told := by
  unfold reconcile
  cases splitNamespacedName key with
  | none => exact told
  | some parts =>
    obtain ⟨ns, name⟩ := parts
    simp only [Action.obeys_bind]
    refine obeys_asked trivial fun found lawful => ?_
    cases found with
    | none =>
      simp only [Action.obeys_bind, obeys_tell]
      exact told
    | some pod =>
      have spaced := lawful pod rfl
      have told' : Told (s.after (.findPod ns name) (some pod)) :=
        fun p mem => told p (held_read_le _ _ p mem)
      simp only
      split
      · rw [Action.obeys_bind]
        exact obeys_refuse told'
      · refine obeys_reconcilePod told' ?_ spaced
        -- either the pass reads the last status, or it holds nothing any more
        intro p mem
        by_cases fresh : pod.status = s.status
        · rw [fresh]
          exact (told' p mem).2
        · have stale : (pod.status == s.status) = false := by simpa using fresh
          simp [after, stale, held] at mem

end Hotplug.Pass
