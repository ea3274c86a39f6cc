import Hotplug.Delegate.Basic
/-!
The pod's network status: what is attached to it. The annotation is written with one member
a line; entries of the default network are never removed from it.
-/
namespace Hotplug

open Hotplug.Json Hotplug.Text

structure StatusEntry where
  name : String := ""
  interface : String := ""
  ips : List String := []
  mac : String := ""
  mtu : Option UInt32 := none
  isDefault : Bool := false
  dns : Cni.Dns := {}
  deviceInfo : Option Value := none
  gateway : List String := []
  deriving DecidableEq, Repr

namespace StatusEntry

def key (e : StatusEntry) : String := e.name ++ "/" ++ e.interface

def decoder : Decoder StatusEntry := record [
  requiredField "name" string fun v e => { e with name := v },
  field "interface" string fun v e => { e with interface := v },
  field "ips" (list string) fun v e => { e with ips := v },
  field "mac" string fun v e => { e with mac := v },
  field "mtu" Cni.mtuDecoder fun v e => { e with mtu := v },
  field "default" bool fun v e => { e with isDefault := v },
  field "dns" (option Cni.Dns.decoder) fun v e => { e with dns := v.getD {} },
  field "device-info" (option value) fun v e => { e with deviceInfo := v },
  field "gateway" (list string) fun v e => { e with gateway := v }] {}

def toJson (e : StatusEntry) : Value := objectOf [
  member "name" (.string e.name),
  textMember "interface" e.interface,
  listMember "ips" (strings e.ips),
  textMember "mac" e.mac,
  Cni.mtuMember e.mtu,
  if e.isDefault then member "default" (.bool true) else none,
  member "dns" e.dns.toJson,
  optionalMember "device-info" e.deviceInfo,
  listMember "gateway" (strings e.gateway)]

def text (e : StatusEntry) : String := e.toJson.compact

/-- Whether an address was given to the interface in that place. One without a place, and
any address if there is no interface, counts. -/
def isOwn (sandboxed : Option (Nat × Cni.Interface)) (a : Cni.Assignment) : Bool :=
  match sandboxed, a.interface with
  | some (place, _), some owner => place == owner.toNat
  | _, _ => true

def ofResult (name : String) (result : Cni.Result) (requested : String) : StatusEntry :=
  let sandboxed := result.sandboxInterface requested
  { name
    interface := (sandboxed.map (·.2.name)).getD requested
    ips := (result.assignments.filter (isOwn sandboxed)).map (·.address.address.text)
    mac := (sandboxed.map (·.2.mac)).getD ""
    mtu := sandboxed.bind (·.2.mtu)
    dns := result.dns
    gateway := result.defaultGateways.map (·.text) }

end StatusEntry

namespace Status

def parse (raw : String) : Except AnnotationFault (List StatusEntry) :=
  if (trim raw.toList).isEmpty then .ok []
  else match decodeText (option (list StatusEntry.decoder)) raw with
    | .ok entries => .ok (entries.getD [])
    | .error fault => .error (.malformedStatus fault)

def serialize (entries : List StatusEntry) : String :=
  "[" ++ joinWith "," (entries.map (·.toJson.indented)) ++ "]"

end Status

def Pod.observed (pod : Pod) : Except AnnotationFault (List StatusEntry) :=
  match pod.status with
  | some raw => Status.parse raw
  | none => .ok []

structure Outcome where
  attachment : Attachment
  response : Option Delegate.Response
  deriving DecidableEq, Repr

namespace Outcome

def isValid (o : Outcome) : Bool := !o.attachment.name.isEmpty

def hasResult (o : Outcome) : Bool := (o.response.bind (·.result)).isSome

def reported? (o : Outcome) : Option StatusEntry := do
  let result ← (← o.response).result
  return .ofResult o.attachment.statusName result o.attachment.interface

end Outcome

namespace Status

def removalKey (a : Attachment) : String := a.statusName ++ "/" ++ a.interface

/-- The next status: what survives, then what was added. -/
def merge (current : List StatusEntry) (added : List Outcome) (removed : List Attachment) :
    List StatusEntry :=
  let gone := removed.map removalKey
  current.filter (fun e => e.isDefault || !gone.contains e.key) ++
    (added.filter (·.isValid)).filterMap (·.reported?)

end Status

end Hotplug
