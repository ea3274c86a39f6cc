import Hotplug.Delegate.Basic
import Hotplug.Proofs.Json.Merging
import Hotplug.Proofs.Json.Stored
import Hotplug.Proofs.Text.Base64
import Hotplug.Proofs.Text.Pieces
/-!
The delegate receives just what was asked. Here is a delegate's side of it: how the parts of a
request are read off its payload. The pod is told in a list of texts without escapes, so that a
semicolon in its namespace or name would hide where they end.
-/
namespace Hotplug.Delegate

open Hotplug.Json Hotplug.Text

def Command.ofText? : String → Option Command
  | "ADD" => some .add
  | "DEL" => some .del
  | _ => none

def textOf? : Value → Option String
  | .string s => some s
  | _ => none

def membersOf? : Value → Option Members
  | .object members => some members
  | _ => none

def itemsOf? : Value → Option (List Value)
  | .array items => some items
  | _ => none

def textAt? (members : Members) (key : String) : Option String :=
  (members.get? key).bind textOf?

def memberOr {α : Type} (missing : α) (read : Value → Option α) (members : Members)
    (key : String) : Option α :=
  match members.get? key with
  | none => some missing
  | some v => read v

def Attributes.ofJson? (v : Value) : Option Attributes := do
  let members ← membersOf? v
  let ips ← memberOr [] (fun v => (itemsOf? v).bind (·.mapM textOf?)) members "ipRequest"
  let mac ← memberOr "" textOf? members "macRequest"
  let arguments ← memberOr none (fun v => (membersOf? v).map some) members "cni-args"
  return ⟨ips, mac, arguments⟩

/-- The parts of a request that stand on their own in its payload. -/
structure Received where
  command : Command
  sandboxId : String
  netns : String
  interface : String
  arguments : String
  config : List UInt8
  attributes : Option Attributes
  deriving DecidableEq, Repr

def Received.ofJson? (v : Value) : Option Received := do
  let members ← membersOf? v
  let environment ← membersOf? (← members.get? "env")
  let command ← Command.ofText? (← textAt? environment "CNI_COMMAND")
  let sandboxId ← textAt? environment "CNI_CONTAINERID"
  let netns ← textAt? environment "CNI_NETNS"
  let interface ← textAt? environment "CNI_IFNAME"
  let arguments ← textAt? environment "CNI_ARGS"
  let config ← Base64.decode (← textAt? members "config")
  let attributes ← memberOr none (fun v => (Attributes.ofJson? v).map some) members
    "interfaceAttributes"
  return { command, sandboxId, netns, interface, arguments, config, attributes }

def receive? (payload : String) : Option Received :=
  (Json.read? payload).bind Received.ofJson?

/-- A text behind its label, up to the next semicolon, and what follows that. -/
def setting? (label : String) (s : List Char) : Option (List Char × List Char) :=
  (s.dropPrefix? label.toList).bind (splitOnce ';')

/-- The namespace, name and UID of the pod that the plugin's arguments name. -/
def podOf? (arguments : String) : Option (String × String × String) := do
  let (ns, s) ← setting? "K8S_POD_NAMESPACE=" arguments.toList
  let (name, s) ← setting? "K8S_POD_NAME=" s
  let uid ← s.dropPrefix? "K8S_POD_UID=".toList
  return (String.ofList ns, String.ofList name, String.ofList uid)

def Attributes.Stored (a : Attributes) : Prop :=
  ∀ members ∈ a.arguments, (Value.object members).Stored

def Request.Stored (r : Request) : Prop := ∀ a ∈ r.attributes, a.Stored

theorem Command.ofText_text (c : Command) : Command.ofText? c.text = some c := by
  cases c <;> rfl

theorem mapM_textOf (texts : List String) : (strings texts).mapM textOf? = some texts := by
  induction texts with
  | nil => rfl
  | cons text texts ih =>
    have rest : (texts.map Value.string).mapM textOf? = some texts := ih
    simp [strings, textOf?, rest]

def Named (keys : List String) (members : List (Option (String × Value))) : Prop :=
  List.Forall₂ (fun key o => ∀ m ∈ o, m.1 = key) keys members

theorem named_listMember (key : String) (items : List Value) :
    ∀ m ∈ listMember key items, m.1 = key := by
  intro m present
  unfold listMember at present
  split at present
  · cases present
  · rw [← Option.some.inj present]

theorem named_textMember (key text : String) : ∀ m ∈ textMember key text, m.1 = key := by
  intro m present
  unfold textMember at present
  split at present
  · cases present
  · rw [← Option.some.inj present]

theorem named_optionalMember (key : String) (v : Option Value) :
    ∀ m ∈ optionalMember key v, m.1 = key := by
  intro m present
  obtain ⟨_, -, rfl⟩ := Option.map_eq_some_iff.mp present
  rfl

section
variable {keys : List String} {members : List (Option (String × Value))}

theorem Named.sublist (named : Named keys members) :
    ((members.filterMap id).map (·.1)).Sublist keys := by
  induction named with
  | nil => exact .slnil
  | @cons key o keys members first _ ih =>
    cases o with
    | none => exact ih.cons key
    | some m =>
      obtain rfl := first m rfl
      exact ih.cons_cons m.1

theorem Named.stored (named : Named keys members) (distinct : keys.Nodup)
    (each : ∀ m ∈ members.filterMap id, m.2.Stored) : (objectOf members).Stored :=
  .object (distinct.sublist named.sublist) each

theorem Named.get?_eq_none (named : Named keys members) {key : String} (absent : key ∉ keys) :
    Members.get? (members.filterMap id) key = none :=
  lookup_absent fun mem => absent (named.sublist.subset mem)

theorem Named.get?_eq (named : Named keys members) (distinct : keys.Nodup) {key : String}
    {o : Option (String × Value)} (mem : (key, o) ∈ keys.zip members) :
    Members.get? (members.filterMap id) key = o.map (·.2) := by
  induction named with
  | nil => cases mem
  | @cons key' o' keys members first named ih =>
    obtain ⟨absent, distinct⟩ := List.nodup_cons.mp distinct
    rcases List.mem_cons.mp mem with same | later
    · obtain ⟨rfl, rfl⟩ := Prod.mk.inj same
      cases o with
      | none => exact Named.get?_eq_none named absent
      | some m =>
        obtain ⟨key, v⟩ := m
        obtain rfl := first _ rfl
        exact List.lookup_cons_self
    · have ne : key ≠ key' := fun same => absent (same ▸ (List.of_mem_zip later).1)
      rw [← ih distinct later]
      cases o' with
      | none => rfl
      | some m =>
        obtain ⟨key', v⟩ := m
        obtain rfl := first _ rfl
        have other : (key == key') = false := beq_eq_false_iff_ne.mpr ne
        simp [Members.get?, List.lookup_cons, other]

end

theorem Attributes.named (a : Attributes) : Named ["ipRequest", "macRequest", "cni-args"]
    [listMember "ipRequest" (strings a.ips), textMember "macRequest" a.mac,
      optionalMember "cni-args" (a.arguments.map .object)] :=
  .cons (named_listMember _ _) (.cons (named_textMember _ _) (.cons (named_optionalMember _ _) .nil))

theorem Attributes.Stored.toJson {a : Attributes} (stored : a.Stored) : a.toJson.Stored := by
  apply a.named.stored (by decide)
  intro m mem
  simp only [List.mem_filterMap, List.mem_cons, List.not_mem_nil, or_false, id] at mem
  obtain ⟨o, rfl | rfl | rfl, present⟩ := mem
  · unfold listMember at present
    split at present
    · cases present
    · obtain rfl := Option.some.inj present
      apply Value.Stored.array
      intro item mem
      obtain ⟨ip, -, rfl⟩ := List.mem_map.mp mem
      exact .string ip
  · unfold textMember at present
    split at present
    · cases present
    · obtain rfl := Option.some.inj present
      exact .string a.mac
  · obtain ⟨v, given, rfl⟩ := Option.map_eq_some_iff.mp present
    obtain ⟨members, arguments, rfl⟩ := Option.map_eq_some_iff.mp given
    exact stored members arguments

theorem Attributes.ofJson_toJson (a : Attributes) : ofJson? a.toJson = some a := by
  obtain ⟨members, whole, ips, mac, arguments⟩ : ∃ members : Members,
      a.toJson = .object members ∧
      members.get? "ipRequest" = (listMember "ipRequest" (strings a.ips)).map (·.2) ∧
      members.get? "macRequest" = (textMember "macRequest" a.mac).map (·.2) ∧
      members.get? "cni-args" = (optionalMember "cni-args" (a.arguments.map .object)).map (·.2) :=
    ⟨_, rfl, a.named.get?_eq (by decide) (.head _),
      a.named.get?_eq (by decide) (.tail _ (.head _)),
      a.named.get?_eq (by decide) (.tail _ (.tail _ (.head _)))⟩
  have ips : memberOr [] (fun v => (itemsOf? v).bind (·.mapM textOf?)) members "ipRequest" =
      some a.ips := by
    have texts := mapM_textOf a.ips
    by_cases none : a.ips = []
    · simp [memberOr, ips, listMember, strings, none]
    · have some : (strings a.ips).isEmpty = false := by simp [strings, none]
      simp [memberOr, ips, listMember, some, itemsOf?, texts]
  have mac : memberOr "" textOf? members "macRequest" = some a.mac := by
    by_cases none : a.mac = "" <;> simp [memberOr, mac, textMember, none, textOf?]
  have arguments : memberOr none (fun v => (membersOf? v).map some) members "cni-args" =
      some a.arguments := by
    cases given : a.arguments <;> simp [memberOr, arguments, optionalMember, given, membersOf?]
  have object : membersOf? (.object members) = some members := rfl
  simp only [ofJson?, whole, object, Option.bind_eq_bind, Option.bind_some, ips, mac, arguments]
  rfl

theorem Request.stored_environment (r : Request) : (Value.object r.environment).Stored := by
  have distinct : ["CNI_ARGS", "CNI_COMMAND", "CNI_CONTAINERID", "CNI_IFNAME",
      "CNI_NETNS"].Nodup := by
    decide
  apply Value.Stored.object
  · exact distinct
  · simp only [environment, List.mem_cons, List.not_mem_nil, or_false, forall_eq_or_imp, forall_eq]
    exact ⟨.string _, .string _, .string _, .string _, .string _⟩

theorem Request.named (r : Request) : Named ["env", "config", "interfaceAttributes"]
    [member "env" (.object r.environment), member "config" (.string (Base64.encode r.config)),
      optionalMember "interfaceAttributes" (r.attributes.map Attributes.toJson)] :=
  .cons (by simp [member]) (.cons (by simp [member]) (.cons (named_optionalMember _ _) .nil))

theorem Request.Stored.toJson {r : Request} (stored : r.Stored) : r.toJson.Stored := by
  apply r.named.stored (by decide)
  intro m mem
  simp only [List.mem_filterMap, List.mem_cons, List.not_mem_nil, or_false, id] at mem
  obtain ⟨o, rfl | rfl | rfl, present⟩ := mem
  · obtain rfl := Option.some.inj present
    exact r.stored_environment
  · obtain rfl := Option.some.inj present
    exact .string _
  · obtain ⟨v, given, rfl⟩ := Option.map_eq_some_iff.mp present
    obtain ⟨a, attributes, rfl⟩ := Option.map_eq_some_iff.mp given
    exact Attributes.Stored.toJson (stored a attributes)

theorem Request.ofJson_toJson (r : Request) : Received.ofJson? r.toJson =
    some ⟨r.command, r.sandboxId, r.netns, r.interface, r.cniArgs, r.config, r.attributes⟩ := by
  have command : textAt? r.environment "CNI_COMMAND" = some r.command.text := by rfl
  have sandboxId : textAt? r.environment "CNI_CONTAINERID" = some r.sandboxId := by rfl
  have netns : textAt? r.environment "CNI_NETNS" = some r.netns := by rfl
  have interface : textAt? r.environment "CNI_IFNAME" = some r.interface := by rfl
  have arguments : textAt? r.environment "CNI_ARGS" = some r.cniArgs := by rfl
  obtain ⟨members, whole, environment, config, attributes⟩ : ∃ members : Members,
      r.toJson = .object members ∧ members.get? "env" = some (.object r.environment) ∧
      textAt? members "config" = some (Base64.encode r.config) ∧
      memberOr none (fun v => (Attributes.ofJson? v).map some) members "interfaceAttributes" =
        some r.attributes := by
    refine ⟨_, rfl, rfl, rfl, ?_⟩
    cases given : r.attributes with
    | none => rfl
    | some a =>
      change (Attributes.ofJson? a.toJson).map some = some (some a)
      rw [a.ofJson_toJson, Option.map_some]
  simp only [whole, Received.ofJson?, membersOf?, Option.bind_eq_bind, Option.bind_some, environment,
    command, sandboxId, netns, interface, arguments, config, attributes, Command.ofText_text,
    Base64.decode_encode]
  rfl

theorem receive_payload {r : Request} (stored : r.Stored) : receive? r.payload =
    some ⟨r.command, r.sandboxId, r.netns, r.interface, r.cniArgs, r.config, r.attributes⟩ := by
  have read : Json.read? r.payload = some r.toJson := read_compact stored.toJson
  rw [receive?, read, Option.bind_some, r.ofJson_toJson]

theorem dropPrefix_append (label : String) (s : List Char) :
    (label.toList ++ s).dropPrefix? label.toList = some s :=
  List.dropPrefix?_eq_some_iff.mpr ⟨label.toList, rfl, beq_self_eq_true _⟩

theorem setting_written (label : String) {s : List Char} (clean : ';' ∉ s) (rest : List Char) :
    setting? label (label.toList ++ (s ++ ';' :: rest)) = some (s, rest) := by
  rw [setting?, dropPrefix_append, Option.bind_some, splitOnce_append clean]

theorem toList_settings (first second third ns name uid : String) {second' third' : String}
    (two : second.toList = ';' :: second'.toList) (three : third.toList = ';' :: third'.toList) :
    (first ++ ns ++ second ++ name ++ third ++ uid).toList =
      first.toList ++ (ns.toList ++ ';' :: (second'.toList ++ (name.toList ++ ';' ::
        (third'.toList ++ uid.toList)))) := by
  simp [two, three]

theorem podOf_cniArgs {r : Request} (ns : ';' ∉ r.podNs.toList) (name : ';' ∉ r.podName.toList) :
    podOf? r.cniArgs = some (r.podNs, r.podName, r.podUid) := by
  have two : ";K8S_POD_NAME=".toList = ';' :: "K8S_POD_NAME=".toList := by decide
  have three : ";K8S_POD_UID=".toList = ';' :: "K8S_POD_UID=".toList := by decide
  have chars := toList_settings "K8S_POD_NAMESPACE=" ";K8S_POD_NAME=" ";K8S_POD_UID="
    r.podNs r.podName r.podUid two three
  unfold podOf? Request.cniArgs
  rw [chars, setting_written _ ns]
  dsimp only [Option.bind_eq_bind, Option.bind_some]
  rw [setting_written _ name]
  dsimp only [Option.bind_some]
  rw [dropPrefix_append]
  simp only [Option.bind_some, Option.pure_def, String.ofList_toList]

/-- Every part of a request is read off its payload as it was: those that stand on their own
always, and the pod if no semicolon hides its parts. So there are no two such requests with one
payload. -/
theorem payload_tells_request {r : Request} (stored : r.Stored) :
    receive? r.payload =
      some ⟨r.command, r.sandboxId, r.netns, r.interface, r.cniArgs, r.config, r.attributes⟩ ∧
    (';' ∉ r.podNs.toList → ';' ∉ r.podName.toList →
      podOf? r.cniArgs = some (r.podNs, r.podName, r.podUid) ∧
      ∀ q : Request, q.Stored → ';' ∉ q.podNs.toList → ';' ∉ q.podName.toList →
        q.payload = r.payload → q = r) := by
  have read := receive_payload stored
  refine ⟨read, fun ns name => ?_⟩
  have pod := podOf_cniArgs ns name
  refine ⟨pod, ?_⟩
  intro q stored' ns' name' same
  have read' := receive_payload stored'
  have pod' := podOf_cniArgs ns' name'
  rw [same, read] at read'
  obtain ⟨command, sandboxId, netns, interface, arguments, config, attributes⟩ :=
    Received.mk.inj (Option.some.inj read')
  rw [← arguments, pod] at pod'
  obtain ⟨podNs, pod'⟩ := Prod.mk.inj (Option.some.inj pod')
  obtain ⟨podName, podUid⟩ := Prod.mk.inj pod'
  cases q
  cases r
  simp_all

def sampleRequest : Request :=
  { command := .add, sandboxId := "9f\\2", netns := "/var/run/netns/\"a\"", interface := "net1",
    podNs := "shop", podName := "web-0", podUid := "u;1", config := [0x7B, 0x7D, 0x0A, 0xFF],
    attributes := some ⟨["10.0.0.5/8"], "", some [("vlan", .array [.number (.int 7), .null])]⟩ }

def sampleBare : Request := { sampleRequest with attributes := some ⟨[], "", none⟩ }

theorem sample_payloads_tell :
    (sampleRequest.Stored ∧ sampleBare.Stored) ∧
    receive? sampleRequest.payload = some ⟨.add, "9f\\2", "/var/run/netns/\"a\"", "net1",
      "K8S_POD_NAMESPACE=shop;K8S_POD_NAME=web-0;K8S_POD_UID=u;1", [0x7B, 0x7D, 0x0A, 0xFF],
      some ⟨["10.0.0.5/8"], "", some [("vlan", .array [.number (.int 7), .null])]⟩⟩ ∧
    podOf? sampleRequest.cniArgs = some ("shop", "web-0", "u;1") ∧
    sampleBare.payload ≠ sampleRequest.payload := by
  have stored : sampleRequest.Stored := by
    rintro a ⟨⟩ members ⟨⟩
    apply Value.Stored.object (by decide)
    intro m mem
    obtain rfl := List.mem_singleton.mp mem
    apply Value.Stored.array
    simp only [List.mem_cons, List.not_mem_nil, or_false, forall_eq_or_imp, forall_eq]
    exact ⟨.int (by decide) (by decide), .null⟩
  have bare : sampleBare.Stored := by
    rintro a ⟨⟩ members ⟨⟩
  obtain ⟨read, rest⟩ := payload_tells_request stored
  obtain ⟨pod, other⟩ := rest (by decide) (by decide)
  refine ⟨⟨stored, bare⟩, read, pod, ?_⟩
  intro same
  cases other sampleBare bare (by decide) (by decide) same

end Hotplug.Delegate
