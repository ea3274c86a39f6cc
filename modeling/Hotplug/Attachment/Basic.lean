import Hotplug.Cni
import Hotplug.Pod
import Hotplug.Attachment.HardwareAddress
/-!
The network attachments that a pod asks for, and the faults of the annotations that ask
for and report them.
-/
namespace Hotplug

open Hotplug.Json

structure Attachment where
  name : String := ""
  ns : String := ""
  ips : List String := []
  mac : String := ""
  infinibandGuid : String := ""
  interface : String := ""
  arguments : Option Members := none
  deriving DecidableEq, Repr

inductive AnnotationFault where
  | emptySelection
  | malformedSelection (fault : Fault)
  | invalidObject (item : String) (separator : Char)
  | invalidSegment (segment : String)
  | missingName (item : String)
  | invalidMac (mac : String)
  | invalidGuid (guid : String)
  | invalidIp (ip : String)
  | malformedStatus (fault : Fault)
  deriving DecidableEq, Repr

def AnnotationFault.message : AnnotationFault → String
  | .emptySelection => "The network selection annotation is empty!"
  | .malformedSelection fault =>
    "Couldn't parse the network selection JSON! Reason: " ++ fault.label
  | .invalidObject item separator =>
    "Invalid network object '" ++ item ++ "' (failed at '" ++ separator.toString ++ "')!"
  | .invalidSegment segment =>
    "Network object item '" ++ segment ++ "' must consist of lower case alphanumeric " ++
      "characters or '-', and must start and end with an alphanumeric character!"
  | .missingName item => "Network object '" ++ item ++ "' is missing a network name!"
  | .invalidMac mac => "Invalid MAC address '" ++ mac ++ "'!"
  | .invalidGuid guid => "Invalid infiniband GUID '" ++ guid ++ "'!"
  | .invalidIp ip => "Invalid IP address or CIDR '" ++ ip ++ "'!"
  | .malformedStatus fault =>
    "Couldn't parse the network status JSON! Reason: " ++ fault.label

namespace Attachment

def key (a : Attachment) : String :=
  if a.interface.isEmpty then namespacedName a.ns a.name
  else a.ns ++ "/" ++ a.name ++ "/" ++ a.interface

def statusName (a : Attachment) : String :=
  if a.ns.isEmpty then a.name else namespacedName a.ns a.name

def hasAttributes (a : Attachment) : Bool :=
  !a.ips.isEmpty || !a.mac.isEmpty || a.arguments.isSome

def decoder : Decoder Attachment := record [
  requiredField "name" string fun v a => { a with name := v },
  field "namespace" string fun v a => { a with ns := v },
  field "ips" (list string) fun v a => { a with ips := v },
  field "mac" string fun v a => { a with mac := v },
  field "infiniband-guid" string fun v a => { a with infinibandGuid := v },
  field "interface" string fun v a => { a with interface := v },
  field "cni-args" (option members) fun v a => { a with arguments := v }] {}

def toJson (a : Attachment) : Value := objectOf [
  member "name" (.string a.name),
  textMember "namespace" a.ns,
  listMember "ips" (strings a.ips),
  textMember "mac" a.mac,
  textMember "infiniband-guid" a.infinibandGuid,
  textMember "interface" a.interface,
  optionalMember "cni-args" (a.arguments.map .object)]

def text (a : Attachment) : String := a.toJson.compact

def isIpRequest (ip : String) : Bool :=
  if ip.toList.contains '/' then (Address.Network.ofText? ip).isSome
  else (Address.Ip.ofText? ip).isSome

def isHardwareRequest (address : String) : Bool :=
  address.isEmpty || HardwareAddress.accepts address.toList

/-- Checks the requested addresses: MAC, Infiniband GUID, then IPs in their order. -/
def validate (a : Attachment) : Except AnnotationFault Unit :=
  if !isHardwareRequest a.mac then .error (.invalidMac a.mac)
  else if !isHardwareRequest a.infinibandGuid then .error (.invalidGuid a.infinibandGuid)
  else match a.ips.find? (!isIpRequest ·) with
    | some ip => .error (.invalidIp ip)
    | none => .ok ()

end Attachment

end Hotplug
