import Hotplug.Proofs.Controller.Loop
import Hotplug.Proofs.Pass.Plugging
/-!
The controller at work on one pod. The server has the pod; a cache shows its versions in their
order, as late as it likes, and passes read the pod there. Events may come in any order. Other
pods are not covered: a pass over another key finds none.
-/
namespace Hotplug

open Delegate Ledger

structure Oracle where
  answer : (e : Effect) → e.Answer
  lawful : ∀ e, Lawful e (answer e)

structure Site where
  loop : Loop
  pass : Option (Action (Except PassFault Unit)) := none
  pod : Pod
  shown : Option Pod := none
  unseen : List Pod
  ledger : Ledger

namespace Site

inductive Event where
  | edit (change : Pod → Pod)
  | refresh
  | befall (event : Loop.Event)
  | answer (oracle : Oracle)
  | conclude

def start (pod : Pod) (maxRetries : Nat) (backoff : Backoff) : Site where
  loop := Loop.start maxRetries backoff
  pod := pod
  unseen := [pod]
  ledger := { status := pod.status }

def publish (s : Site) (version : Pod) : Site :=
  { s with pod := version, unseen := s.unseen ++ [version] }

def reply (s : Site) (oracle : Oracle) : (e : Effect) → e.Answer
  | .findPod ns name => s.shown.filter (·.isNamed ns name)
  | e => oracle.answer e

def serve (s : Site) : Effect → Site
  | .writeStatus _ _ status => s.publish { s.pod with status := some status }
  | _ => s

def taken? : (before after : Worker) → Option String
  | .busy _, _ => none
  | _, .busy key => some key
  | _, _ => none

def befall (s : Site) (event : Loop.Event) : Site :=
  let loop := s.loop.step event
  match taken? s.loop.controller.worker loop.controller.worker with
  | some key => { s with loop, pass := some (Pass.reconcile key) }
  | none => { s with loop }

def step (s : Site) : Event → Site
  | .edit change => s.publish { change s.pod with ns := s.pod.ns, name := s.pod.name }
  | .refresh =>
    match s.unseen with
    | [] => s
    | version :: more => { s with shown := some version, unseen := more }
  | .befall (.input (.concluded _)) => s
  | .befall event => s.befall event
  | .answer oracle =>
    match s.pass with
    | some (.step e next) =>
      { s.serve e with
        pass := some (next (s.reply oracle e)), ledger := s.ledger.after e (s.reply oracle e) }
    | _ => s
  | .conclude =>
    match s.pass with
    | some (.done result) => { s with loop := s.loop.take (.concluded result), pass := none }
    | _ => s

def play (pod : Pod) (maxRetries : Nat) (backoff : Backoff) (events : List Event) : Site :=
  events.foldl step (start pod maxRetries backoff)

variable {s : Site}

theorem busy_step {l : Loop} {key : String} (busy : l.controller.worker = .busy key)
    (event : Loop.Event) (other : ∀ result, event ≠ .input (.concluded result)) :
    (l.step event).controller.worker = .busy key := by
  cases event with
  | fire k =>
    simp only [Loop.step]
    split
    · exact busy
    · exact busy
  | input input =>
    simp only [Loop.step, Loop.take]
    cases input with
    | concluded result => exact absurd rfl (other result)
    | synced pods =>
      simp only [Controller.step]
      split
      · exact busy
      · exact busy
    | lost =>
      simp only [Controller.step]
      split
      · exact busy
      · exact busy
    | shutdown =>
      simp only [Controller.step]
      split <;> exact busy
    | enqueue k => exact busy
    | look => simp [Controller.step, busy]
    | handBack => simp [Controller.step, busy]

/-- Whether every request found its interface unplugged. -/
def Fair : List Record → Prop
  | [] => True
  | .sent p :: log => p ∉ held log ∧ Fair log
  | _ :: log => Fair log

theorem fair_split {after before : List Record} {p : Plug}
    (fair : Fair (after ++ .sent p :: before)) : p ∉ held before := by
  induction after with
  | nil => exact fair.1
  | cons record after ih =>
    cases record with
    | sent q => exact ih fair.2
    | read fresh => exact ih fair
    | plugged q => exact ih fair
    | unplugged q => exact ih fair

theorem fair_after {l : Ledger} {e : Effect} (answer : e.Answer) (allowed : l.allows e)
    (fair : Fair l.log) : Fair (l.after e answer).log := by
  cases e with
  | findPod ns name =>
    cases answer with
    | none => exact fair
    | some pod => exact fair
  | invoke request =>
    show Fair (l.records request answer ++ l.log)
    unfold records
    split
    · rename_i adds
      have free := allowed adds
      split
      · exact ⟨free, fair⟩
      · exact ⟨free, fair⟩
    · rename_i adds
      exact ⟨allowed adds, fair⟩
    · exact fair
    · exact fair
  | _ => exact fair

structure Sound (s : Site) : Prop where
  spaced : s.pod.ns.getD "" ≠ ""
  spaced_shown : ∀ pod ∈ s.shown, pod.ns.getD "" ≠ ""
  spaced_unseen : ∀ pod ∈ s.unseen, pod.ns.getD "" ≠ ""
  fair : Fair s.ledger.log
  rest : s.pass = none → Pass.Told s.ledger
  busy : ∀ p, s.pass = some p →
    (∃ key, s.loop.controller.worker = .busy key) ∧ p.Obeys rules s.ledger fun _ => Pass.Told

theorem sound_start {pod : Pod} (spaced : pod.ns.getD "" ≠ "") (maxRetries : Nat)
    (backoff : Backoff) : Sound (start pod maxRetries backoff) where
  spaced := spaced
  spaced_shown := by simp [start]
  spaced_unseen := by simpa [start] using spaced
  fair := trivial
  rest := by simp [start, Pass.Told, held]
  busy := by simp [start]

theorem Sound.unseen_publish (h : Sound s) {version : Pod} (spaced : version.ns.getD "" ≠ "") :
    ∀ pod ∈ (s.publish version).unseen, pod.ns.getD "" ≠ "" := by
  intro pod mem
  rcases List.mem_append.mp mem with old | new
  · exact h.spaced_unseen pod old
  · obtain rfl := List.mem_singleton.mp new
    exact spaced

theorem Sound.edit (h : Sound s) (change : Pod → Pod) : Sound (s.step (.edit change)) :=
  { h with spaced_unseen := h.unseen_publish h.spaced }

theorem Sound.refresh (h : Sound s) : Sound (s.step .refresh) := by
  simp only [step]
  split
  · exact h
  · rename_i version more unseen
    have all := h.spaced_unseen
    rw [unseen] at all
    refine { h with spaced_shown := ?_, spaced_unseen := ?_ }
    · intro pod shown
      obtain rfl := Option.mem_some.mp shown
      exact all _ (by simp)
    · exact fun pod mem => all pod (List.mem_cons_of_mem _ mem)

theorem taken?_eq_some {before after : Worker} {key : String}
    (taken : taken? before after = some key) :
    after = .busy key ∧ ∀ k, before ≠ .busy k := by
  unfold taken? at taken
  split at taken
  · cases taken
  · rename_i free
    obtain rfl := Option.some.inj taken
    exact ⟨rfl, fun k busy => free k busy⟩
  · cases taken

theorem Sound.befall (h : Sound s) (event : Loop.Event)
    (other : ∀ result, event ≠ .input (.concluded result)) : Sound (s.befall event) := by
  simp only [Site.befall]
  split
  · rename_i key taken
    obtain ⟨busy, free⟩ := taken?_eq_some taken
    -- the worker was free before, so that no pass runs that the new one would replace
    have idle : s.pass = none := by
      cases pass : s.pass with
      | none => rfl
      | some p =>
        obtain ⟨⟨k, busy⟩, -⟩ := h.busy p pass
        exact absurd busy (free k)
    refine { h with rest := by simp, busy := ?_ }
    rintro p ⟨⟩
    exact ⟨⟨key, busy⟩, Pass.obeys_reconcile key (h.rest idle)⟩
  · refine { h with busy := ?_ }
    intro p pass
    obtain ⟨⟨key, busy⟩, obeys⟩ := h.busy p pass
    exact ⟨⟨key, busy_step busy event other⟩, obeys⟩

theorem Sound.conclude (h : Sound s) : Sound (s.step .conclude) := by
  simp only [Site.step]
  split
  · rename_i result pass
    have told : Pass.Told s.ledger := (h.busy _ pass).2
    exact { h with rest := fun _ => told, busy := by simp }
  · exact h

theorem Sound.lawful (h : Sound s) (oracle : Oracle) (e : Effect) :
    Lawful e (s.reply oracle e) := by
  cases e with
  | findPod ns name =>
    intro pod found
    exact h.spaced_shown pod (Option.mem_filter_iff.mp found).1
  | _ => exact oracle.lawful _

theorem Sound.spaced_serve (h : Sound s) (e : Effect) :
    (s.serve e).pod.ns.getD "" ≠ "" ∧ ∀ pod ∈ (s.serve e).unseen, pod.ns.getD "" ≠ "" := by
  cases e with
  | writeStatus ns name status => exact ⟨h.spaced, h.unseen_publish h.spaced⟩
  | _ => exact ⟨h.spaced, h.spaced_unseen⟩

theorem serve_rest (s : Site) (e : Effect) :
    (s.serve e).loop = s.loop ∧ (s.serve e).shown = s.shown := by
  cases e <;> exact ⟨rfl, rfl⟩

theorem Sound.answer (h : Sound s) (oracle : Oracle) : Sound (s.step (.answer oracle)) := by
  simp only [Site.step]
  split
  · rename_i e next pass
    obtain ⟨busy, allowed, goesOn⟩ := h.busy _ pass
    obtain ⟨loop, shown⟩ := serve_rest s e
    obtain ⟨spaced, spaced_unseen⟩ := h.spaced_serve e
    refine ⟨spaced, ?_, spaced_unseen, fair_after _ allowed h.fair,
      by simp, ?_⟩
    · rw [shown]
      exact h.spaced_shown
    · rintro p ⟨⟩
      rw [loop]
      exact ⟨busy, goesOn _ (h.lawful oracle e)⟩
  · exact h

theorem step_befall {event : Loop.Event} (other : ∀ result, event ≠ .input (.concluded result)) :
    s.step (.befall event) = s.befall event := by
  cases event with
  | fire key => rfl
  | input input =>
    cases input with
    | concluded result => exact absurd rfl (other result)
    | _ => rfl

theorem Sound.step (h : Sound s) (event : Event) : Sound (s.step event) := by
  cases event with
  | edit change => exact h.edit change
  | refresh => exact h.refresh
  | answer oracle => exact h.answer oracle
  | conclude => exact h.conclude
  | befall event =>
    by_cases ends : ∃ result, event = .input (.concluded result)
    · obtain ⟨result, rfl⟩ := ends
      exact h
    · have other : ∀ result, event ≠ .input (.concluded result) :=
        fun result eq => ends ⟨result, eq⟩
      rw [step_befall other]
      exact h.befall event other

theorem sound_play {pod : Pod} (spaced : pod.ns.getD "" ≠ "") (maxRetries : Nat)
    (backoff : Backoff) (events : List Event) : Sound (play pod maxRetries backoff events) := by
  have all (s : Site) (h : Sound s) : Sound (events.foldl Site.step s) := by
    induction events generalizing s with
    | nil => exact h
    | cons event rest ih => exact ih (s.step event) (h.step event)
  exact all _ (sound_start spaced maxRetries backoff)

/-- An interface is only plugged in again if it was unplugged, or a pass read a status that was
not the last one. -/
theorem plugged_again {pod : Pod} (spaced : pod.ns.getD "" ≠ "") (maxRetries : Nat)
    (backoff : Backoff) (events : List Event) {p : Plug} {before between after : List Record}
    (log : (play pod maxRetries backoff events).ledger.log =
      after ++ .sent p :: (between ++ .plugged p :: before)) :
    .unplugged p ∈ between ∨ .read false ∈ between := by
  have sound := sound_play spaced maxRetries backoff events
  have free : p ∉ held (between ++ .plugged p :: before) := fair_split (log ▸ sound.fair)
  by_contra neither
  simp only [not_or] at neither
  exact free (mem_held_of_plugged neither.1 neither.2)

def samplePod : Pod where
  ns := some "default"
  name := some "web"
  uid := some "8b5a3f1e"
  networks := some "net1@eth1"

def samplePlug : Plug := ⟨"default", "net1", "eth1"⟩

def sampleInfo : String :=
  "\x7b\"runtimeSpec\": \x7b\"linux\": \x7b\"namespaces\": " ++
    "[\x7b\"type\": \"network\", \"path\": \"/n\"\x7d]\x7d\x7d\x7d"

def sampleAnswer : (e : Effect) → e.Answer
  | .findPod _ _ => none
  | .findDefinition ns name =>
    if ns = "default" ∧ name = "net1" then some { ns, name, config := some "\x7b\x7d" } else none
  | .listSandboxes _ => .ok { items := [{ id := "s1" }] }
  | .sandboxStatus _ => .ok { info := [("info", sampleInfo)] }
  | .invoke request =>
    if request.interface = "eth1" then
      .ok { result := some { interfaces := [{ name := "eth1", sandbox := "/n" }] } }
    else .error .timeout
  | .publish _ _ => ()
  | .writeStatus _ _ _ => .ok ()
  | .log _ => ()

theorem sampleAnswer_lawful : ∀ e, Lawful e (sampleAnswer e) := by
  intro e
  cases e with
  | findDefinition ns name =>
    simp only [Lawful, sampleAnswer]
    split
    · rename_i same
      obtain ⟨rfl, rfl⟩ := same
      intro _
      simp [Clean]
    · simp
  | invoke request =>
    simp only [Lawful, sampleAnswer]
    split
    · rename_i same
      intro response eq
      obtain rfl := Except.ok.inj eq
      rw [same]
      refine ⟨by simp [Clean], ?_⟩
      rintro result ⟨⟩ _
      decide
    · simp
  | findPod ns name => simp [Lawful, sampleAnswer]
  | writeStatus ns name status => rfl
  | _ => trivial

def sampleOracle : Oracle := ⟨sampleAnswer, sampleAnswer_lawful⟩

def samplePass : List Event :=
  .befall (.input .look) :: List.replicate 12 (.answer sampleOracle) ++
    [.conclude, .befall (.input .handBack)]

def sampleStart : List Event := [.refresh, .befall (.input (.synced [samplePod]))]

def sampleEdit (networks : Option String) : List Event :=
  [.refresh, .edit fun pod => { pod with networks }, .refresh,
    .befall (.input (.enqueue "default/web"))]

def freshRun : List Event :=
  sampleStart ++ samplePass ++ sampleEdit none ++ samplePass ++ sampleEdit (some "net1@eth1") ++
    samplePass

def freshBetween : List Record := [.read true, .unplugged samplePlug, .read true]

theorem plugged_again_after_unplugging :
    samplePod.ns.getD "" ≠ "" ∧
      (play samplePod 2 {} freshRun).ledger.log = [.plugged samplePlug] ++ .sent samplePlug ::
        (freshBetween ++ .plugged samplePlug :: [.sent samplePlug, .read true]) ∧
      (.unplugged samplePlug ∈ freshBetween ∨ .read false ∈ freshBetween) := by
  have spaced : samplePod.ns.getD "" ≠ "" := by decide
  have log : (play samplePod 2 {} freshRun).ledger.log =
      [.plugged samplePlug] ++ .sent samplePlug ::
        (freshBetween ++ .plugged samplePlug :: [.sent samplePlug, .read true]) := by
    decide +kernel
  exact ⟨spaced, log, plugged_again spaced 2 {} freshRun log⟩

def staleRun : List Event :=
  sampleStart ++ samplePass ++ [.befall (.input (.enqueue "default/web"))] ++ samplePass

/-- Without the second way out an interface may be plugged in twice, though it was never
unplugged. -/
theorem stale_read_plugs_twice : ∃ p before between after,
    (play samplePod 2 {} staleRun).ledger.log =
      after ++ .sent p :: (between ++ .plugged p :: before) ∧
    .unplugged p ∉ between := by
  refine ⟨samplePlug, [.sent samplePlug, .read true], [.read false], [.plugged samplePlug],
    ?_, ?_⟩
  · decide +kernel
  · decide

end Site

end Hotplug
