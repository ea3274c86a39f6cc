import Hotplug.Attachment.Basic
import Hotplug.Text.Base64
/-!
The plugin delegate: what it is asked to do for one interface, and what it answers. A
request to add an interface has only succeeded if the answer holds a result.
-/
namespace Hotplug.Delegate

open Hotplug.Json Hotplug.Text

inductive Command where
  | add
  | del
  deriving DecidableEq, Repr

def Command.text : Command → String
  | .add => "ADD"
  | .del => "DEL"

structure Attributes where
  ips : List String
  mac : String
  arguments : Option Members
  deriving DecidableEq, Repr

def Attributes.of? (a : Attachment) : Option Attributes :=
  if a.hasAttributes then some ⟨a.ips, a.mac, a.arguments⟩ else none

def Attributes.toJson (a : Attributes) : Value := objectOf [
  listMember "ipRequest" (strings a.ips),
  textMember "macRequest" a.mac,
  optionalMember "cni-args" (a.arguments.map .object)]

structure Request where
  command : Command
  sandboxId : String
  netns : String
  interface : String
  podNs : String
  podName : String
  podUid : String
  config : List UInt8
  attributes : Option Attributes
  deriving DecidableEq, Repr

namespace Request

def cniArgs (r : Request) : String :=
  "K8S_POD_NAMESPACE=" ++ r.podNs ++ ";K8S_POD_NAME=" ++ r.podName ++
    ";K8S_POD_UID=" ++ r.podUid

def environment (r : Request) : Members := [
  ("CNI_ARGS", .string r.cniArgs),
  ("CNI_COMMAND", .string r.command.text),
  ("CNI_CONTAINERID", .string r.sandboxId),
  ("CNI_IFNAME", .string r.interface),
  ("CNI_NETNS", .string r.netns)]

def toJson (r : Request) : Value := objectOf [
  member "env" (.object r.environment),
  member "config" (.string (Base64.encode r.config)),
  optionalMember "interfaceAttributes" (r.attributes.map Attributes.toJson)]

def payload (r : Request) : String := r.toJson.compact

end Request

structure Draft where
  command : Option Command := none
  sandboxId : Option String := none
  netns : Option String := none
  interface : Option String := none
  podNs : Option String := none
  podName : Option String := none
  podUid : Option String := none
  config : Option (List UInt8) := none
  attributes : Option Attributes := none

structure MissingPart where
  name : String
  deriving DecidableEq, Repr

def MissingPart.message (part : MissingPart) : String :=
  "`" ++ part.name ++ "` must be initialized"

namespace Draft

def withAttachment (draft : Draft) (a : Attachment) : Draft :=
  { draft with interface := some a.interface, attributes := Attributes.of? a }

def require {α : Type} (name : String) : Option α → Except MissingPart α
  | some a => .ok a
  | none => .error ⟨name⟩

def complete (draft : Draft) : Except MissingPart Request := do
  let command ← require "command" draft.command
  let sandboxId ← require "sandbox_id" draft.sandboxId
  let netns ← require "netns_path" draft.netns
  let interface ← require "interface_name" draft.interface
  let podNs ← require "pod_namespace" draft.podNs
  let podName ← require "pod_name" draft.podName
  let podUid ← require "pod_uid" draft.podUid
  let config ← require "config" draft.config
  return { command, sandboxId, netns, interface, podNs, podName, podUid, config,
           attributes := draft.attributes }

end Draft

structure Response where
  result : Option Cni.Result := none
  deriving DecidableEq, Repr

inductive DelegateFault where
  | connection (socket reason : String)
  | transport (reason : String)
  | timeout
  | unexpectedStatus (status : Nat) (body : String)
  | malformedResponse (body : String) (fault : Fault)
  | missingResult
  deriving DecidableEq, Repr

def DelegateFault.message : DelegateFault → String
  | .connection socket reason =>
    "Couldn't connect to the delegate socket '" ++ socket ++ "'! Reason: " ++ reason
  | .transport reason => "Delegate request failed! Reason: " ++ reason
  | .timeout => "Delegate request timed out!"
  | .unexpectedStatus status body =>
    "Unexpected delegate response status " ++ toString status ++ ": '" ++ body ++ "'!"
  | .malformedResponse body fault =>
    "Couldn't parse the delegate response '" ++ body ++ "'! Reason: " ++ fault.label
  | .missingResult => "Delegate didn't return a CNI result!"

namespace Response

def decoder : Decoder Response :=
  record [⟨["Result", "result"], false,
    (option Cni.Result.decoder).map fun v r => { r with result := v }⟩] {}

def toJson (r : Response) : Value := objectOf [
  optionalMember "Result" (r.result.map Cni.Result.toJson)]

def text (r : Response) : String := r.toJson.compact

/-- Reads an answer's body; an empty one is an empty answer. -/
def parse (body : List UInt8) : Except DelegateFault Response :=
  if body.isEmpty then .ok {}
  else
    let symbols := Symbol.ofBytes body
    match decode decoder symbols with
    | .ok response => .ok response
    | .error fault => .error (.malformedResponse (Symbol.lossy symbols) fault)

def requireResult (r : Response) : Except DelegateFault Response :=
  match r.result with
  | some _ => .ok r
  | none => .error .missingResult

end Response

end Hotplug.Delegate
