import Hotplug.Delegate.Exchange
import Hotplug.Pass
/-!
A world that answers effects by scripts: cached objects, a container runtime, a delegate and
a status writer. A call takes the script that stands when it is made.
-/
namespace Hotplug.Rehearsal

/-- A sandbox of the runtime; without an owner it is listed for every pod. -/
structure Sandboxed where
  id : String
  owner : Option String := none
  deriving DecidableEq, Repr

def defaultInfo : String :=
  "\x7b\"runtimeSpec\":\x7b\"linux\":\x7b\"namespaces\":" ++
    "[\x7b\"type\":\"network\",\"path\":\"/var/run/netns/cni-1\"\x7d]\x7d\x7d\x7d"

structure RuntimeScript where
  sandboxes : List Sandboxed := [{ id := "sandbox-1" }]
  info : Option String := some defaultInfo
  infoKey : String := Sandbox.infoKey
  failures : Nat := 0
  listFault : Option RpcFault := none
  statusFault : Option RpcFault := none
  delay : Nat := 0
  deriving DecidableEq, Repr

namespace RuntimeScript

def down : RpcFault := ⟨.unavailable, "runtime is down"⟩

def subject? (request : Sandbox.ListRequest) : Option String :=
  request.filter.bind fun filter => filter.labels.lookup Sandbox.podLabel

def listing (runtime : RuntimeScript) (request : Sandbox.ListRequest) : Sandbox.ListResponse where
  items := (runtime.sandboxes.filter fun s => s.owner.isNone || s.owner == subject? request).map
    fun s => { id := s.id }

def list (runtime : RuntimeScript) (request : Sandbox.ListRequest) :
    Except RuntimeFault Sandbox.ListResponse × RuntimeScript :=
  match runtime.listFault, runtime.failures with
  | some fault, _ => (.error (.rpc fault), runtime)
  | none, failures + 1 => (.error (.rpc down), { runtime with failures })
  | none, 0 => (.ok (runtime.listing request), runtime)

def status (runtime : RuntimeScript) : Except RuntimeFault Sandbox.StatusResponse :=
  match runtime.statusFault with
  | some fault => .error (.rpc fault)
  | none => .ok { info := (runtime.info.map (runtime.infoKey, ·)).toList }

end RuntimeScript

inductive Reply where
  | status (code : Nat) (body : List UInt8)
  | timeout
  | good
  deriving DecidableEq, Repr

structure DelegateScript where
  byCall : List (String × Reply) := []
  replies : List Reply := []
  delay : Nat := 0
  calls : Nat := 0
  deriving DecidableEq, Repr

namespace DelegateScript

def callName (request : Delegate.Request) : String :=
  request.command.text ++ " " ++ request.interface

def choose (delegate : DelegateScript) (request : Delegate.Request) : Reply × DelegateScript :=
  let delegate := { delegate with calls := delegate.calls + 1 }
  match delegate.byCall.lookup (callName request), delegate.replies with
  | some reply, _ => (reply, delegate)
  | none, reply :: replies => (reply, { delegate with replies })
  | none, [] => (.good, delegate)

def plugged (interface netns : String) : Cni.Result where
  version := "1.0.0"
  interfaces := [{ name := interface, mac := "02:03:04:05:06:07", sandbox := netns }]
  assignments := [{ interface := some 0, address := ⟨.v4 #v[10, 10, 10, 2], 24, by decide⟩,
                    gateway := none }]

/-- What a reply says to a request; an interface without a name gets the number of the call. -/
def answer (request : Delegate.Request) (calls : Nat) :
    Reply → Except Delegate.DelegateFault Delegate.Response
  | .status code body => Delegate.Response.ofAnswer code body
  | .timeout => .error .timeout
  | .good =>
    match request.command with
    | .del => .ok {}
    | .add =>
      let interface :=
        if request.interface.isEmpty then "net" ++ toString calls else request.interface
      .ok { result := some (plugged interface request.netns) }

end DelegateScript

structure WriterScript where
  failures : Nat := 0
  applies : Bool := true
  deriving DecidableEq, Repr

def WriterScript.conflict : Api.Refusal := ⟨409, "Conflict", "the server rejected our request"⟩

structure World where
  pods : List Pod := []
  definitions : List Definition := []
  runtime : RuntimeScript := {}
  delegate : DelegateScript := {}
  writer : WriterScript := {}
  deriving DecidableEq, Repr

namespace World

def findPod (w : World) (ns name : String) : Option Pod := w.pods.find? (·.isNamed ns name)

def findDefinition (w : World) (ns name : String) : Option Definition :=
  w.definitions.find? (·.isNamed ns name)

def editPod (w : World) (ns name : String) (edit : Pod → Pod) : World :=
  { w with pods := w.pods.map fun pod => if pod.isNamed ns name then edit pod else pod }

def write (w : World) (ns name status : String) : Except Api.Refusal Unit × World :=
  match w.writer.failures with
  | failures + 1 => (.error WriterScript.conflict, { w with writer := { w.writer with failures } })
  | 0 =>
    if w.writer.applies then (.ok (), w.editPod ns name fun pod => { pod with status := status })
    else (.ok (), w)

def answer (w : World) : (e : Effect) → e.Answer × World
  | .findPod ns name => (w.findPod ns name, w)
  | .findDefinition ns name => (w.findDefinition ns name, w)
  | .listSandboxes request =>
    let (response, runtime) := w.runtime.list request
    (response, { w with runtime })
  | .sandboxStatus _ => (w.runtime.status, w)
  | .invoke request =>
    let (reply, delegate) := w.delegate.choose request
    (DelegateScript.answer request delegate.calls reply, { w with delegate })
  | .publish _ _ => ((), w)
  | .writeStatus ns name status => w.write ns name status
  | .log _ => ((), w)

def delay (w : World) : Effect → Nat
  | .listSandboxes _ => w.runtime.delay
  | .invoke _ => w.delegate.delay
  | _ => 0

def rehearse {α : Type} (w : World) (program : Action α) : α × List Effect × World :=
  let (value, effects, w) := program.run (fun e (s : List Effect × World) =>
    let (answer, w) := s.2.answer e
    (answer, e :: s.1, w)) ([], w)
  (value, effects.reverse, w)

end World

inductive Change where
  | setPod (pod : Pod)
  | deletePod (ns name : String)
  | setNetworks (ns name : String) (networks : Option String)
  | setDefinition (definition : Definition)
  | deleteDefinition (ns name : String)
  | setRuntime (runtime : RuntimeScript)
  | setDelegate (delegate : DelegateScript)
  | setWriter (writer : WriterScript)

def replaceOrAppend {α : Type} (fits : α → Bool) (new : α) : List α → List α
  | [] => [new]
  | a :: more => if fits a then new :: more else a :: replaceOrAppend fits new more

/-- A new delegate goes on counting the calls. -/
def World.change (w : World) : Change → World
  | .setPod pod =>
    let fits (other : Pod) := other.isNamed (pod.ns.getD "") (pod.name.getD "")
    { w with pods := replaceOrAppend fits pod w.pods }
  | .deletePod ns name => { w with pods := w.pods.filter (!·.isNamed ns name) }
  | .setNetworks ns name networks => w.editPod ns name fun pod => { pod with networks }
  | .setDefinition d =>
    let fits (other : Definition) := other.isNamed (d.ns.getD "") (d.name.getD "")
    { w with definitions := replaceOrAppend fits d w.definitions }
  | .deleteDefinition ns name =>
    { w with definitions := w.definitions.filter (!·.isNamed ns name) }
  | .setRuntime runtime => { w with runtime }
  | .setDelegate delegate => { w with delegate := { delegate with calls := w.delegate.calls } }
  | .setWriter writer => { w with writer }

end Hotplug.Rehearsal
