import Hotplug.Plan
import Hotplug.Definition
import Hotplug.Sandbox.Resolve
/-!
One pass over a pod: what is requested is compared with what is attached, the missing
attachments are made and the stale ones given up, each up to the first failure, and what was
achieved is recorded in one status.
-/
namespace Hotplug

open Hotplug.Delegate Hotplug.Text

inductive PassFault where
  | invalidKey (key : String)
  | missingUid (key : String)
  | unreadable (fault : AnnotationFault)
  | unresolved (fault : RuntimeFault)
  | missingDefinition (definition : String)
  | unusableDefinition (fault : DefinitionFault)
  | failed (command : Command) (network : String) (fault : DelegateFault)
  deriving DecidableEq, Repr

namespace PassFault

def message : PassFault → String
  | .invalidKey key => "'" ++ key ++ "' is not a namespaced name!"
  | .missingUid key => "Pod '" ++ key ++ "' is missing a UID!"
  | .unreadable fault =>
    "Couldn't read the pod's network annotations! Reason: " ++ fault.message
  | .unresolved fault => "Couldn't resolve the pod's sandbox! Reason: " ++ fault.message
  | .missingDefinition definition =>
    "Network attachment definition '" ++ definition ++ "' doesn't exist!"
  | .unusableDefinition fault =>
    "Couldn't apply defaults to the network attachment definition! Reason: " ++ fault.message
  | .failed command network fault =>
    "Failed to " ++ command.text ++ " delegate for '" ++ network ++ "'! Reason: " ++
      fault.message

/-- Whether another pass may succeed. A bad key stays bad. -/
def isRetryable : PassFault → Bool
  | .invalidKey _ => false
  | _ => true

end PassFault

namespace Pass

structure Target where
  pod : Pod
  key : String
  ns : String
  name : String
  uid : String
  sandboxId : String
  netns : String
  deriving DecidableEq, Repr

def definitionNs (target : Target) (a : Attachment) : String :=
  if a.ns.isEmpty then target.ns else a.ns

def request (target : Target) (command : Command) (a : Attachment) (config : String) :
    Request where
  command := command
  sandboxId := target.sandboxId
  netns := target.netns
  interface := a.interface
  podNs := target.ns
  podName := target.name
  podUid := target.uid
  config := bytesOf config
  attributes := Attributes.of? a

def prepare (target : Target) (command : Command) (a : Attachment) :
    Action (Except PassFault Request) := do
  let ns := definitionNs target a
  match ← Action.ask (.findDefinition ns a.name) with
  | none => return .error (.missingDefinition (namespacedName ns a.name))
  | some definition =>
    return match definition.pluginConfig with
      | .error fault => .error (.unusableDefinition fault)
      | .ok config => .ok (request target command a config)

/-- Whether an answer will do: an addition needs a result. -/
def accept (command : Command) (response : Response) : Except DelegateFault Response :=
  match command with
  | .add => response.requireResult
  | .del => .ok response

def delegate (target : Target) (command : Command) (a : Attachment) :
    Action (Except PassFault Response) := do
  match ← prepare target command a with
  | .error fault => return .error fault
  | .ok request =>
    return ((← Action.ask (.invoke request)) >>= accept command).mapError
      (.failed command a.key ·)

def beginning (command : Command) (network key : String) : String :=
  match command with
  | .add => "Adding network '" ++ network ++ "' to pod '" ++ key ++ "'..."
  | .del => "Removing network '" ++ network ++ "' from pod '" ++ key ++ "'..."

def success (command : Command) (network key : String) : String :=
  match command with
  | .add => "Added interface '" ++ network ++ "' to pod '" ++ key ++ "'"
  | .del => "Removed interface '" ++ network ++ "' from pod '" ++ key ++ "'"

def failure (command : Command) (network key : String) (fault : PassFault) : String :=
  match command with
  | .add =>
    "Couldn't add network '" ++ network ++ "' to pod '" ++ key ++ "'! " ++ fault.message
  | .del =>
    "Couldn't remove network '" ++ network ++ "' from pod '" ++ key ++ "'! " ++ fault.message

def eventKind (command : Command) (succeeded : Bool) : EventKind :=
  match command, succeeded with
  | .add, true => .addedInterface
  | .add, false => .failedAddingInterface
  | .del, true => .removedInterface
  | .del, false => .failedRemovingInterface

def announce (target : Target) (command : Command) (succeeded : Bool) (a : Attachment) :
    Action Unit :=
  Action.ask (.publish target.pod (.of (eventKind command succeeded) target.key a))

def attempt (target : Target) (command : Command) (a : Attachment) :
    Action (Except PassFault Response) := do
  Action.tell .info (beginning command a.key target.key)
  match ← delegate target command a with
  | .ok response =>
    announce target command true a
    Action.tell .info (success command a.key target.key)
    return .ok response
  | .error fault =>
    Action.tell .error (failure command a.key target.key fault)
    announce target command false a
    return .error fault

/-- Makes or gives up attachments in their order, up to the first failure. -/
def attemptAll (target : Target) (command : Command) :
    List Attachment → Action (List Outcome × Option PassFault)
  | [] => return ([], none)
  | a :: more => do
    match ← attempt target command a with
    | .error fault => return ([], some fault)
    | .ok response =>
      let (outcomes, fault) ← attemptAll target command more
      return (⟨a, some response⟩ :: outcomes, fault)

/-- What a pass reads off a pod before it looks any further. -/
structure Reading where
  desired : List Attachment
  observed : List StatusEntry
  uid : String
  deriving DecidableEq, Repr

def read (key : String) (pod : Pod) : Except PassFault Reading := do
  let desired ← pod.desired.mapError .unreadable
  let observed ← pod.observed.mapError .unreadable
  let some uid := pod.uid | throw (.missingUid key)
  return { desired, observed, uid }

/-- Turns a host networked pod down, aloud if it asks for networks. -/
def refuse (key : String) (pod : Pod) : Action Unit := do
  if pod.networks.isSome then
    Action.tell .warn ("Refusing to add interfaces to host networked pod '" ++ key ++ "'")
    Action.ask (.publish pod (.rejected key))

/-- Records what was achieved. A refused write is logged and no failure of the pass. -/
def persist (target : Target) (observed : List StatusEntry) (added removed : List Outcome) :
    Action Unit := do
  if !added.isEmpty || !removed.isEmpty then
    let status := Status.serialize (Status.merge observed added (removed.map (·.attachment)))
    match ← Action.ask (.writeStatus target.ns target.name status) with
    | .ok () => return
    | .error refusal =>
      Action.tell .error ("Couldn't update pod '" ++ target.key ++ "' network status! " ++
        refusal.cause)

/-- Carries out a plan. A failed addition keeps no removal from being tried. -/
def execute (target : Target) (observed : List StatusEntry) (plan : Plan) :
    Action (Except PassFault Unit) := do
  let (added, addFault) ← attemptAll target .add plan.add
  let (removed, removeFault) ← attemptAll target .del plan.remove
  persist target observed added removed
  return match addFault <|> removeFault with
    | some fault => .error fault
    | none => .ok ()

def locate (uid : String) : Action (Except PassFault (String × String)) := do
  match ← Sandbox.findNetns uid with
  | .error fault => return .error (.unresolved fault)
  | .ok netns =>
    match ← Sandbox.find uid with
    | .error fault => return .error (.unresolved fault)
    | .ok sandboxId => return .ok (netns, sandboxId)

def reconcilePod (key ns name : String) (pod : Pod) : Action (Except PassFault Unit) := do
  match read key pod with
  | .error fault => return .error fault
  | .ok { desired, observed, uid } =>
    match ← locate uid with
    | .error fault => return .error fault
    | .ok (netns, sandboxId) =>
      let plan := Plan.compute desired observed
      if plan.isEmpty then return .ok ()
      else execute { pod, key, ns, name, uid, sandboxId, netns } observed plan

def reconcile (key : String) : Action (Except PassFault Unit) := do
  match splitNamespacedName key with
  | none => return .error (.invalidKey key)
  | some (ns, name) =>
    match ← Action.ask (.findPod ns name) with
    | none =>
      Action.tell .info ("Pod '" ++ key ++ "' is gone, nothing to reconcile")
      return .ok ()
    | some pod =>
      if pod.hostNetworked then
        refuse key pod
        return .ok ()
      else reconcilePod key ns name pod

end Pass

end Hotplug
