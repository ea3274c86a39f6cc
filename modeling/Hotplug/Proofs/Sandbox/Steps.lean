import Hotplug.Proofs.Sandbox.Info
import Hotplug.Proofs.Sandbox.Resolve
/-!
The steps from a pod to its network namespace: its one sandbox is listed, the verbose status of
that sandbox is asked for, and the status tells the path. The first step that fails gives the
fault, and no step after it is taken. Which fault a text gives that is no status is not covered.
-/
namespace Hotplug.Sandbox

/-- The first of the network namespaces has the path. -/
def FirstNetwork (namespaces : List LinuxNamespace) (path : String) : Prop :=
  ∃ before n after, namespaces = before ++ n :: after ∧ (∀ m ∈ before, m.type ≠ "network") ∧
    n.type = "network" ∧ n.path = path

variable {info : Info} {path : String}

theorem firstNetwork_iff : FirstNetwork info.namespaces path ↔
    (info.namespaces.find? (·.type == "network")).map (·.path) = some path := by
  rw [Option.map_eq_some_iff]
  simp only [List.find?_eq_some_iff_append]
  constructor
  · intro first
    obtain ⟨before, n, after, split, others, network, own⟩ := first
    have passed : ∀ m ∈ before, (!(m.type == "network")) = true := by simpa using others
    exact ⟨n, ⟨by simpa using network, before, after, split, passed⟩, own⟩
  · intro found
    obtain ⟨n, ⟨network, before, after, split, passed⟩, own⟩ := found
    have others : ∀ m ∈ before, m.type ≠ "network" := by simpa using passed
    exact ⟨before, n, after, split, others, by simpa using network, own⟩

theorem netns?_eq_filter : info.netns? =
    ((info.namespaces.find? (·.type == "network")).map (·.path)).filter (!·.isEmpty) := by
  unfold Info.netns?
  cases info.namespaces.find? (·.type == "network") with
  | none => rfl
  | some n => cases empty : n.path.isEmpty <;> simp [empty, Option.filter]

theorem netns?_eq_some :
    info.netns? = some path ↔ FirstNetwork info.namespaces path ∧ path ≠ "" := by
  rw [netns?_eq_filter, firstNetwork_iff, Option.filter_eq_some_iff]
  simp

theorem netns?_eq_none :
    info.netns? = none ↔ ∀ path, FirstNetwork info.namespaces path → path = "" := by
  rw [Option.eq_none_iff_forall_ne_some]
  simp only [ne_eq, netns?_eq_some, not_and, Decidable.not_not]

/-- A listing of the sandboxes with the label of a pod's uid. -/
def labelled (uid : String) : ListRequest where
  filter := some { id := "", labels := [("io.kubernetes.pod.uid", uid)] }

section
variable (uid : String) (listed : Except RuntimeFault ListResponse)
  (inspect : String → Except RuntimeFault StatusResponse)

/-- What the steps come to, by how the runtime lists the pod's sandboxes and what it tells of a
sandbox that it is asked about. A fault is that of the first step that fails. -/
inductive Resolution : Except RuntimeFault String → Prop
  | unlisted {fault : RuntimeFault} : listed = .error fault → Resolution (.error fault)
  | absent : listed = .ok { items := [] } → Resolution (.error (.sandboxNotFound uid))
  | several {a b : Listed} {more : List Listed} : listed = .ok { items := a :: b :: more } →
    Resolution (.error (.ambiguousSandbox uid))
  | uninspected {sandbox : Listed} {fault : RuntimeFault} :
    listed = .ok { items := [sandbox] } → inspect sandbox.id = .error fault →
    Resolution (.error fault)
  | uninformed {sandbox : Listed} {status : StatusResponse} :
    listed = .ok { items := [sandbox] } → inspect sandbox.id = .ok status →
    status.info.lookup "info" = none → Resolution (.error (.missingInfo sandbox.id))
  | malformed {sandbox : Listed} {status : StatusResponse} {text : String} {fault : Json.Fault} :
    listed = .ok { items := [sandbox] } → inspect sandbox.id = .ok status →
    status.info.lookup "info" = some text → (∀ info, ¬ Reports text info) →
    Info.parse text = .error fault → Resolution (.error (.malformedInfo sandbox.id fault))
  | pathless {sandbox : Listed} {status : StatusResponse} {text : String} {info : Info} :
    listed = .ok { items := [sandbox] } → inspect sandbox.id = .ok status →
    status.info.lookup "info" = some text → Reports text info →
    (∀ path, FirstNetwork info.namespaces path → path = "") →
    Resolution (.error (.missingNetns sandbox.id))
  | found {sandbox : Listed} {status : StatusResponse} {text path : String} {info : Info} :
    listed = .ok { items := [sandbox] } → inspect sandbox.id = .ok status →
    status.info.lookup "info" = some text → Reports text info →
    FirstNetwork info.namespaces path → path ≠ "" → Resolution (.ok path)

/-- What the runtime is called for: a status only if exactly one sandbox was listed. -/
inductive Calls : List Effect → Prop
  | listing : (∀ sandbox, listed ≠ .ok { items := [sandbox] }) →
    Calls [.listSandboxes (labelled uid)]
  | both {sandbox : Listed} : listed = .ok { items := [sandbox] } →
    Calls [.listSandboxes (labelled uid), .sandboxStatus { id := sandbox.id, verbose := true }]

end

variable {uid sandbox text : String} {listed : Except RuntimeFault ListResponse}
  {inspect : String → Except RuntimeFault StatusResponse} {status : StatusResponse}
  {outcome : Except RuntimeFault String} {calls : List Effect}

theorem Calls.nodup (called : Calls uid listed calls) : calls.Nodup := by
  cases called <;> simp

theorem netnsIn_uninformed (missing : status.info.lookup "info" = none) :
    netnsIn sandbox status = .error (.missingInfo sandbox) := by
  simp only [netnsIn, infoKey, missing]
  rfl

theorem netnsIn_malformed {fault : Json.Fault} (entry : status.info.lookup "info" = some text)
    (unread : Info.parse text = .error fault) :
    netnsIn sandbox status = .error (.malformedInfo sandbox fault) := by
  simp only [netnsIn, infoKey, entry, unread]
  rfl

theorem not_reports {fault : Json.Fault} (unread : Info.parse text = .error fault) :
    ∀ info, ¬ Reports text info := by
  intro info reports
  have read := (parse_iff text info).mpr reports
  rw [unread] at read
  cases read

theorem netnsIn_read (entry : status.info.lookup "info" = some text)
    (reports : Reports text info) :
    netnsIn sandbox status = info.netns?.elim (.error (.missingNetns sandbox)) .ok := by
  have onward (f : Info → Except RuntimeFault String) :
      ((Info.parse text).mapError (.malformedInfo sandbox ·) >>= f) = f info := by
    rw [(parse_iff text info).mpr reports]
    rfl
  simp only [netnsIn, infoKey, entry, onward]
  cases info.netns? <;> rfl

theorem netnsIn_pathless (entry : status.info.lookup "info" = some text)
    (reports : Reports text info) (pathless : info.netns? = none) :
    netnsIn sandbox status = .error (.missingNetns sandbox) := by
  rw [netnsIn_read entry reports, pathless]
  rfl

theorem netnsIn_found (entry : status.info.lookup "info" = some text)
    (reports : Reports text info) (found : info.netns? = some path) :
    netnsIn sandbox status = .ok path := by
  rw [netnsIn_read entry reports, found]
  rfl

def resolve (uid : String) (listed : Except RuntimeFault ListResponse)
    (inspect : String → Except RuntimeFault StatusResponse) : Except RuntimeFault String := do
  let sandbox ← listed >>= only uid
  inspect sandbox >>= netnsIn sandbox

theorem resolve_single {one : Listed} (listing : listed = .ok { items := [one] }) :
    resolve uid listed inspect = inspect one.id >>= netnsIn one.id := by
  rw [listing]
  rfl

theorem resolution_resolve (uid : String) (listed : Except RuntimeFault ListResponse)
    (inspect : String → Except RuntimeFault StatusResponse) :
    Resolution uid listed inspect (resolve uid listed inspect) := by
  cases listing : listed with
  | error fault => exact .unlisted rfl
  | ok response =>
    obtain ⟨items⟩ := response
    rcases items with _ | ⟨one, _ | ⟨another, more⟩⟩
    · exact .absent rfl
    · rw [resolve_single rfl]
      cases answer : inspect one.id with
      | error fault => exact .uninspected rfl answer
      | ok status =>
        show Resolution uid _ inspect (netnsIn one.id status)
        cases entry : status.info.lookup "info" with
        | none =>
          rw [netnsIn_uninformed entry]
          exact .uninformed rfl answer entry
        | some text =>
          cases read : Info.parse text with
          | error fault =>
            rw [netnsIn_malformed entry read]
            exact .malformed rfl answer entry (not_reports read) read
          | ok info =>
            have reports := (parse_iff text info).mp read
            cases netns : info.netns? with
            | none =>
              rw [netnsIn_pathless entry reports netns]
              exact .pathless rfl answer entry reports (netns?_eq_none.mp netns)
            | some path =>
              rw [netnsIn_found entry reports netns]
              obtain ⟨first, nonempty⟩ := netns?_eq_some.mp netns
              exact .found rfl answer entry reports first nonempty
    · exact .several rfl

theorem Resolution.eq_resolve (h : Resolution uid listed inspect outcome) :
    resolve uid listed inspect = outcome := by
  cases h with
  | unlisted listing => rw [listing]; rfl
  | absent listing => rw [listing]; rfl
  | several listing => rw [listing]; rfl
  | uninspected listing answer => rw [resolve_single listing, answer]; rfl
  | uninformed listing answer entry =>
    rw [resolve_single listing, answer]
    exact netnsIn_uninformed entry
  | malformed listing answer entry _ unread =>
    rw [resolve_single listing, answer]
    exact netnsIn_malformed entry unread
  | pathless listing answer entry reports empty =>
    rw [resolve_single listing, answer]
    exact netnsIn_pathless entry reports (netns?_eq_none.mpr empty)
  | found listing answer entry reports first nonempty =>
    rw [resolve_single listing, answer]
    exact netnsIn_found entry reports (netns?_eq_some.mpr ⟨first, nonempty⟩)

section
variable {σ : Type} (handle : (e : Effect) → σ → e.Answer × σ) (s : σ)

def listedBy (uid : String) : Except RuntimeFault ListResponse :=
  (handle (.listSandboxes (labelled uid)) s).1

def inspectedBy (uid sandbox : String) : Except RuntimeFault StatusResponse :=
  (handle (.sandboxStatus { id := sandbox, verbose := true })
    (handle (.listSandboxes (labelled uid)) s).2).1

def askStatus : Except RuntimeFault String → Action (Except RuntimeFault String)
  | .error fault => .done (.error fault)
  | .ok sandbox => .step (.sandboxStatus { id := sandbox, verbose := true }) fun status =>
    .done (status >>= netnsIn sandbox)

theorem findNetns_eq (uid : String) : findNetns uid =
    .step (.listSandboxes (labelled uid)) fun listed => askStatus (listed >>= only uid) := by
  rfl

theorem run_askStatus (named : Except RuntimeFault String) (t : σ) :
    ((askStatus named).run handle t).1 = named >>= fun sandbox =>
      (handle (.sandboxStatus { id := sandbox, verbose := true }) t).1 >>= netnsIn sandbox := by
  cases named <;> rfl

theorem run_findNetns (uid : String) : ((findNetns uid).run handle s).1 =
    resolve uid (listedBy handle s uid) (inspectedBy handle s uid) := by
  rw [findNetns_eq]
  exact run_askStatus handle (listedBy handle s uid >>= only uid) _

theorem calls_findNetns (uid : String) :
    Calls uid (listedBy handle s uid) (((findNetns uid).trace handle s).map (·.effect)) := by
  rw [findNetns_eq]
  simp only [Action.trace, List.map_cons]
  have first : (handle (.listSandboxes (labelled uid)) s).1 = listedBy handle s uid := rfl
  rw [first]
  cases listed : listedBy handle s uid with
  | error fault =>
    apply Calls.listing
    simp
  | ok response =>
    obtain ⟨items⟩ := response
    cases items with
    | nil =>
      apply Calls.listing
      simp
    | cons one more =>
      cases more with
      | nil => exact Calls.both rfl
      | cons _ _ =>
        apply Calls.listing
        simp

/-- Whatever the runtime does, the steps come to what the first one that fails makes of them, or
to a path, and each question is asked at most once. -/
theorem findNetns_steps (uid : String) :
    (∀ outcome, ((findNetns uid).run handle s).1 = outcome ↔
      Resolution uid (listedBy handle s uid) (inspectedBy handle s uid) outcome) ∧
    Calls uid (listedBy handle s uid) (((findNetns uid).trace handle s).map (·.effect)) ∧
    (((findNetns uid).trace handle s).map (·.effect)).Nodup := by
  have called := calls_findNetns handle s uid
  refine ⟨?_, called, called.nodup⟩
  intro outcome
  rw [run_findNetns]
  constructor
  · intro same
    rw [← same]
    exact resolution_resolve uid _ _
  · intro comes
    exact comes.eq_resolve

end

def telling (text : String) : (e : Effect) → Unit → e.Answer × Unit
  | .listSandboxes _, _ => (.ok { items := [{ id := "s1" }] }, ())
  | .sandboxStatus _, _ => (.ok { info := [("pid", "7"), ("info", text)] }, ())
  | .findPod _ _, _ | .findDefinition _ _, _ => (none, ())
  | .invoke _, _ => (.ok {}, ())
  | .writeStatus _ _ _, _ => (.ok (), ())
  | .publish _ _, _ | .log _, _ => ((), ())

def sampleText : String :=
  "\x7b\"pid\": [7], \"runtimeSpec\": \x7b\"linux\": \x7b\"namespaces\": [\x7b\"type\": \"pid\"\x7d, " ++
    "\x7b\"path\": \"/var/run/netns/cni-1234\", \"type\": \"network\"\x7d]\x7d\x7d\x7d"

def sampleInfo : Info where
  namespaces := [{ type := "pid" }, { type := "network", path := "/var/run/netns/cni-1234" }]

/-- The second status is a list whose one part is a list with null for the system. -/
theorem sample_netns_found : Reports sampleText sampleInfo ∧ Reports "[[null]]" {} ∧
    ((findNetns "u1").run (telling sampleText) ()).1 = .ok "/var/run/netns/cni-1234" ∧
    ((findNetns "u1").run (telling "[[null]]") ()).1 = .error (.missingNetns "s1") := by
  have reports : Reports sampleText sampleInfo := (parse_iff _ _).mp (by decide +kernel)
  have bare : Reports "[[null]]" {} := (parse_iff _ _).mp (by decide +kernel)
  have first : FirstNetwork sampleInfo.namespaces "/var/run/netns/cni-1234" := by
    refine ⟨[{ type := "pid" }], _, [], rfl, ?_, rfl, rfl⟩
    simp
  have listed : listedBy (telling "[[null]]") () "u1" = .ok { items := [{ id := "s1" }] } := rfl
  have empty (path : String) : FirstNetwork [] path → path = "" := by
    intro ⟨before, n, after, split, _⟩
    simp at split
  have found := (findNetns_steps (telling sampleText) () "u1").1 (.ok "/var/run/netns/cni-1234")
  have pathless := (findNetns_steps (telling "[[null]]") () "u1").1 (.error (.missingNetns "s1"))
  refine ⟨reports, bare, found.mpr ?_, pathless.mpr ?_⟩
  · exact .found rfl rfl rfl reports first (by decide)
  · exact .pathless listed rfl rfl bare empty

end Hotplug.Sandbox
