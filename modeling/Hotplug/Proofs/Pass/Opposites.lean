import Hotplug.Proofs.Pass.Deeds
/-!
Requests of one pass that work against each other. If a pass plugs in and unplugs one interface of
one network, the status holds an entry for it that was recorded without a namespace. What the
delegate makes of the two requests is not covered, nor in which order they succeed.
-/
namespace Hotplug

open Delegate

namespace Plan

variable {entries observed : List StatusEntry} {desired : List Attachment}
  {seen claimed : List String} {a r : Attachment} {e : StatusEntry}

theorem claimed_stays {k : String} (mem : k ∈ claimed) :
    k ∈ (assign entries desired seen claimed).2 := by
  induction desired generalizing seen claimed with
  | nil => exact mem
  | cons b more ih =>
    by_cases old : b.key ∈ seen
    · rw [assign_seen old]
      exact ih mem
    · cases met : meet? entries claimed b with
      | some next =>
        rw [assign_met next old met]
        exact ih (claimed_of_meet met k mem)
      | none =>
        rw [assign_unmet old met]
        exact ih mem

/-- A request without an interface that is not met leaves no entry of its network free. -/
theorem claimed_of_bare (unmet : a ∈ (assign entries desired seen claimed).1)
    (unnamed : a.interface = "") (mem : e ∈ entries) (name : e.name = a.statusName) :
    e.key ∈ (assign entries desired seen claimed).2 := by
  induction desired generalizing seen claimed with
  | nil => simp [assign] at unmet
  | cons b more ih =>
    by_cases old : b.key ∈ seen
    · rw [assign_seen old] at unmet ⊢
      exact ih unmet
    · cases met : meet? entries claimed b with
      | some next =>
        rw [assign_met next old met] at unmet ⊢
        exact ih unmet
      | none =>
        rw [assign_unmet old met] at unmet ⊢
        rcases List.mem_cons.mp unmet with rfl | later
        · have none : candidate? entries claimed a.statusName = none := by
            simpa [meet?, unnamed] using met
          exact claimed_stays (candidate?_eq_none.mp none e mem name)
        · exact ih later

theorem unclaimed_of_remove (stale : r ∈ (compute desired observed).remove) :
    ∃ e ∈ attached observed, r = removal e ∧
      e.key ∉ (assign (attached observed) desired [] (fixedClaims desired observed)).2 := by
  obtain ⟨⟨k, e⟩, listed, rfl⟩ := List.mem_map.mp stale
  obtain ⟨indexed, free⟩ := List.mem_filter.mp listed
  obtain ⟨l, -, found⟩ := List.mem_filterMap.mp indexed
  obtain ⟨d, last, same⟩ := Option.map_eq_some_iff.mp found
  obtain ⟨rfl, rfl⟩ := Prod.mk.inj same
  obtain ⟨mem, key⟩ := Index.last?_mem last
  refine ⟨d, mem, rfl, ?_⟩
  rw [byKey_keys] at free
  simpa [key, fixedClaims, attachedKeys] using free

/-- An addition and a removal of one interface are never of networks of one recorded name. -/
theorem names_apart (unmet : a ∈ (compute desired observed).add)
    (stale : r ∈ (compute desired observed).remove) (spaced : a.ns ≠ "")
    (interface : a.interface = r.interface ∨ a.interface = "") :
    ∃ e ∈ attached observed, r = removal e ∧ e.name ≠ a.statusName := by
  have asked := mem_desired_of_add unmet
  obtain ⟨e, mem, rfl, free⟩ := unclaimed_of_remove stale
  refine ⟨e, mem, rfl, ?_⟩
  intro name
  rw [compute_add_eq] at unmet
  by_cases unnamed : a.interface = ""
  · exact free (claimed_of_bare unmet unnamed mem name)
  · have same : a.interface = e.interface := by
      simpa [unnamed, removal_interface] using interface
    refine unclaimed_of_unmet unmet unnamed ?_
    refine mem_fixedClaims.mpr ⟨⟨a, asked, unnamed, rfl⟩, e, mem, ?_⟩
    rw [Attachment.key_of_interface spaced unnamed, StatusEntry.key, name, same]

theorem name_of_removal (e : StatusEntry) :
    e.name = (removal e).ns ++ "/" ++ (removal e).name ∨
      (removal e).ns = "" ∧ e.name = (removal e).name := by
  unfold removal
  split
  · rename_i ns name found
    left
    apply String.toList_injective
    simp [Text.splitOnce_eq_some found]
  · exact .inr ⟨rfl, rfl⟩

end Plan

/-- Nothing before the name of the network says which namespace it is in. -/
def StatusEntry.Bare (e : StatusEntry) (name : String) : Prop := e.name = name ∨ e.name = "/" ++ name

structure Sending where
  command : Command
  plug : Plug
  deriving DecidableEq, Repr

/-- The requests, in their order. A request is made of the definition that was looked up last. -/
def sendings (sought : String × String) : List Exchange → List Sending
  | [] => []
  | ⟨.findDefinition ns name, _⟩ :: more => sendings (ns, name) more
  | ⟨.invoke r, _⟩ :: more => ⟨r.command, ⟨sought.1, sought.2, r.interface⟩⟩ :: sendings sought more
  | _ :: more => sendings sought more

namespace Pass

variable {target : Target} {command : Command} {a : Attachment} {heard later last : List Exchange}
  {outcome : Except PassFault Response} {wanted : List Attachment} {tries : List Try}
  {sought : String × String} {x : Sending}

theorem mem_sendings_append (mem : x ∈ sendings sought (heard ++ later)) :
    x ∈ sendings sought heard ∨ ∃ sought', x ∈ sendings sought' later := by
  induction heard generalizing sought with
  | nil => exact .inr ⟨sought, mem⟩
  | cons y heard ih =>
    obtain ⟨e, answer⟩ := y
    cases e with
    | invoke r =>
      rcases List.mem_cons.mp mem with rfl | mem
      · exact .inl (List.mem_cons_self ..)
      · exact (ih mem).imp_left (List.mem_cons_of_mem _)
    | _ => exact ih mem

theorem sendings_quiet (quiet : Quiet heard) : sendings sought heard = [] := by
  induction heard generalizing sought with
  | nil => rfl
  | cons y heard ih =>
    obtain ⟨still, rest⟩ := List.forall_mem_cons.mp quiet
    obtain ⟨e, answer⟩ := y
    cases e with
    | invoke r => exact False.elim still
    | _ => exact ih rest

theorem Asked.sent (asked : Asked target command a heard outcome)
    (mem : x ∈ sendings sought heard) : x = ⟨command, plugOf target a⟩ := by
  cases asked with
  | undefined => cases mem
  | unusable _ => cases mem
  | refused _ => exact List.mem_singleton.mp mem
  | empty _ _ _ => exact List.mem_singleton.mp mem
  | accepted _ _ => exact List.mem_singleton.mp mem

theorem Attempt.sent (attempted : Attempt target command a heard outcome)
    (mem : x ∈ sendings sought heard) : x = ⟨command, plugOf target a⟩ := by
  obtain ⟨asked⟩ := attempted
  rcases mem_sendings_append mem with mem | ⟨sought', mem⟩
  · exact asked.sent mem
  · cases mem

theorem UpToFailure.sent (all : UpToFailure target command wanted tries)
    (mem : x ∈ sendings sought (tries.flatMap (·.trace))) :
    ∃ a ∈ wanted, x = ⟨command, plugOf target a⟩ := by
  induction all generalizing sought with
  | nothing => cases mem
  | failed attempted =>
    rw [List.flatMap_singleton] at mem
    exact ⟨_, List.mem_cons_self .., attempted.sent mem⟩
  | onward attempted _ ih =>
    rw [List.flatMap_cons] at mem
    rcases mem_sendings_append mem with mem | ⟨sought', mem⟩
    · exact ⟨_, List.mem_cons_self .., attempted.sent mem⟩
    · obtain ⟨a, wanted, same⟩ := ih mem
      exact ⟨a, List.mem_cons_of_mem _ wanted, same⟩

def wantedFor (plan : Plan) : Command → List Attachment
  | .add => plan.add
  | .del => plan.remove

theorem Carried.sent {observed : List StatusEntry} {plan : Plan} {adds dels : List Try}
    {result : Except PassFault Unit}
    (carried : Carried target observed plan adds dels last heard result)
    (mem : x ∈ sendings sought heard) :
    ∃ a ∈ wantedFor plan x.command, x.plug = plugOf target a := by
  have written (sought : String × String) : sendings sought last = [] := by
    rcases carried.last_cases with rfl | ⟨text, answer, rfl⟩ <;> rfl
  rw [carried.in_order] at mem
  rcases mem_sendings_append mem with mem | ⟨sought', mem⟩
  · obtain ⟨a, wanted, rfl⟩ := carried.additions.sent mem
    exact ⟨a, wanted, rfl⟩
  · rcases mem_sendings_append mem with mem | ⟨sought'', mem⟩
    · obtain ⟨a, wanted, rfl⟩ := carried.removals.sent mem
      exact ⟨a, wanted, rfl⟩
    · rw [written] at mem
      cases mem

theorem plugOf_unspaced (unspaced : a.ns = "") : (plugOf target a).ns = target.ns := by
  simp [plugOf, definitionNs, unspaced]

/-- A removal that works against an addition is not of a network with a recorded namespace. -/
theorem unspaced_of_opposites {observed : List StatusEntry} {desired : List Attachment}
    {b : Attachment} (spaced : target.ns ≠ "" → ∀ a ∈ desired, a.ns ≠ "")
    (unmet : a ∈ (Plan.compute desired observed).add)
    (stale : b ∈ (Plan.compute desired observed).remove)
    (ns : (plugOf target a).ns = (plugOf target b).ns) (name : a.name = b.name)
    (interface : a.interface = b.interface ∨ a.interface = "") : b.ns = "" := by
  by_contra recorded
  rw [plugOf_spaced recorded] at ns
  by_cases own : a.ns = ""
  · have bare : target.ns = "" := by
      by_contra nonempty
      exact spaced nonempty a (Plan.mem_desired_of_add unmet) own
    rw [plugOf_unspaced own, bare] at ns
    exact recorded ns.symm
  · rw [plugOf_spaced own] at ns
    obtain ⟨e, -, rfl, other⟩ := Plan.names_apart unmet stale own interface
    have network : a.ns = (Plan.removal e).ns := ns
    rcases Plan.name_of_removal e with joined | ⟨unspaced, -⟩
    · exact other (by rw [joined, Attachment.statusName_of_ns own, network, name])
    · exact recorded unspaced

theorem bare_of_unspaced {observed : List StatusEntry} {desired : List Attachment}
    (stale : a ∈ (Plan.compute desired observed).remove) (unspaced : a.ns = "") :
    ∃ e ∈ observed, e.isDefault = false ∧ e.interface = a.interface ∧ e.Bare a.name := by
  obtain ⟨e, mem, rfl, -⟩ := Plan.unclaimed_of_remove stale
  obtain ⟨mem, own⟩ := Plan.mem_attached.mp mem
  refine ⟨e, mem, own, (Plan.removal_interface e).symm, ?_⟩
  rcases Plan.name_of_removal e with joined | ⟨-, same⟩
  · rw [unspaced] at joined
    exact .inr joined
  · exact .inl same

end Pass

/-- If a pass sends an addition and a removal for one interface of one network, or an addition
that leaves the interface open, then the network is in the namespace of the pod, and the status
that the pass read holds an entry for it that was recorded without a namespace. -/
theorem opposites_are_bare {σ : Type} (handle : (e : Effect) → σ → e.Answer × σ) (s : σ)
    (finds : ∀ t ns name pod, (handle (.findPod ns name) t).1 = some pod →
      pod.isNamed ns name = true)
    {key : String} {sent : List Sending}
    (pass : sendings ("", "") ((Pass.reconcile key).heard handle s) = sent)
    {ns name plugged unplugged : String} (added : ⟨.add, ⟨ns, name, plugged⟩⟩ ∈ sent)
    (removed : ⟨.del, ⟨ns, name, unplugged⟩⟩ ∈ sent)
    (same : plugged = unplugged ∨ plugged = "") :
    ∃ podName pod observed,
      ⟨.findPod ns podName, some pod⟩ ∈ (Pass.reconcile key).heard handle s ∧
      pod.observed = .ok observed ∧
      ∃ e ∈ observed, e.isDefault = false ∧ e.interface = unplugged ∧ e.Bare name := by
  have ran := Action.heard_of_obeys handle s (Pass.ran_reconcile key)
  rw [List.nil_append] at ran
  subst pass
  generalize heard : (Pass.reconcile key).heard handle s = h at ran added removed ⊢
  cases ran with
  | idle quiet =>
    rw [Pass.sendings_quiet quiet] at added
    cases added
  | @busy podNs podName uid netns sandboxId pod located later desired observed _ _ _ _ reading
      found carried =>
    obtain ⟨wanted, present, -⟩ := Pass.read_ok reading
    have first : Exchange.mk (.findPod podNs podName) (some pod) ∈
        (Pass.reconcile key).heard handle s := by
      rw [heard]
      exact List.mem_cons_self ..
    obtain ⟨t, answer⟩ := Action.answered_of_heard first
    have named := finds t podNs podName pod answer.symm
    have own : pod.ns.getD "" = podNs := by
      simp only [Pod.isNamed, Bool.and_eq_true, beq_iff_eq] at named
      exact named.1
    have sends {x : Sending} (mem : x ∈ sendings ("", "")
        (⟨.findPod podNs podName, some pod⟩ :: (located ++ later))) :
        ∃ a ∈ Pass.wantedFor (Plan.compute desired observed) x.command,
          x.plug = Pass.plugOf ⟨pod, key, podNs, podName, uid, sandboxId, netns⟩ a := by
      rw [← List.cons_append] at mem
      rcases Pass.mem_sendings_append mem with mem | ⟨_, mem⟩
      · rw [Pass.sendings_quiet (Pass.quiet_found found.quiet)] at mem
        cases mem
      · exact carried.sent mem
    obtain ⟨a, unmet, plug⟩ := sends added
    obtain ⟨b, stale, plug'⟩ := sends removed
    obtain ⟨network, called, asked⟩ := Plug.mk.inj plug
    obtain ⟨network', called', asked'⟩ := Plug.mk.inj plug'
    have spaced (nonempty : podNs ≠ "") : ∀ a ∈ desired, a.ns ≠ "" :=
      Pod.desired_spaced (own ▸ nonempty) wanted
    have unspaced : b.ns = "" := Pass.unspaced_of_opposites spaced unmet stale
      (network.symm.trans network') (called.symm.trans called')
      (by rwa [← asked, ← asked'])
    have home : ns = podNs := network'.trans (Pass.plugOf_unspaced unspaced)
    obtain ⟨e, mem, other, interface, bare⟩ := Pass.bare_of_unspaced stale unspaced
    subst home
    refine ⟨podName, pod, observed, List.mem_cons_self .., present, e, mem, other, ?_, ?_⟩
    · rw [interface, asked']
    · rwa [called']

def barePod : Pod :=
  { Pass.samplePod with
    networks := some "net1@eth1"
    status := some "[\x7b\"name\": \"net1\", \"interface\": \"eth1\"\x7d]" }

def bareWorld : (e : Effect) → Unit → e.Answer × Unit
  | .findPod ns name, s => (if barePod.isNamed ns name then some barePod else none, s)
  | e, s => Pass.sampleWorld e s

/-- The interface is plugged in and unplugged, though it is there and asked for. -/
theorem bare_entry_plugged_and_unplugged :
    sendings ("", "") ((Pass.reconcile "default/web").heard bareWorld ()) =
      [⟨.add, ⟨"default", "net1", "eth1"⟩⟩, ⟨.del, ⟨"default", "net1", "eth1"⟩⟩] := by
  decide +kernel

theorem sample_opposites_are_bare : ∃ podName pod observed,
    ⟨.findPod "default" podName, some pod⟩ ∈ (Pass.reconcile "default/web").heard bareWorld () ∧
    pod.observed = .ok observed ∧
    ∃ e ∈ observed, e.isDefault = false ∧ e.interface = "eth1" ∧ e.Bare "net1" := by
  have finds (t : Unit) (ns name : String) (pod : Pod)
      (found : (bareWorld (.findPod ns name) t).1 = some pod) : pod.isNamed ns name = true := by
    obtain ⟨named, rfl⟩ : barePod.isNamed ns name = true ∧ barePod = pod := by
      simpa [bareWorld] using found
    exact named
  have added : ⟨.add, ⟨"default", "net1", "eth1"⟩⟩ ∈
      sendings ("", "") ((Pass.reconcile "default/web").heard bareWorld ()) := by
    decide +kernel
  have removed : ⟨.del, ⟨"default", "net1", "eth1"⟩⟩ ∈
      sendings ("", "") ((Pass.reconcile "default/web").heard bareWorld ()) := by
    decide +kernel
  exact opposites_are_bare bareWorld () finds rfl added removed (.inl rfl)

end Hotplug
