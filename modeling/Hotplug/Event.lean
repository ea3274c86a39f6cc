import Hotplug.Attachment.Basic
/-!
Events about a pod's networks. A requested attachment's attributes follow the network's
name in the events about adding it.
-/
namespace Hotplug

open Hotplug.Text

inductive EventKind where
  | addedInterface
  | failedAddingInterface
  | removedInterface
  | failedRemovingInterface
  | interfaceAddRejected
  deriving DecidableEq, Repr

namespace EventKind

def all : List EventKind := [.addedInterface, .failedAddingInterface, .removedInterface,
  .failedRemovingInterface, .interfaceAddRejected]

def reason : EventKind → String
  | .addedInterface => "AddedInterface"
  | .failedAddingInterface => "FailedAddingInterface"
  | .removedInterface => "RemovedInterface"
  | .failedRemovingInterface => "FailedRemovingInterface"
  | .interfaceAddRejected => "InterfaceAddRejected"

def action : EventKind → String
  | .removedInterface | .failedRemovingInterface => "RemoveInterface"
  | .addedInterface | .failedAddingInterface | .interfaceAddRejected => "AddInterface"

def isWarning : EventKind → Bool
  | .addedInterface | .removedInterface => false
  | .failedAddingInterface | .failedRemovingInterface | .interfaceAddRejected => true

end EventKind

structure Event where
  kind : EventKind
  message : String
  deriving DecidableEq, Repr

namespace Event

def attributesText (a : Attachment) : String :=
  if a.hasAttributes then
    let arguments := match a.arguments with
      | some members => (Json.Value.object members).compact
      | none => "\x7b\x7d"
    "(ips: [" ++ joinWith " " a.ips ++ "], mac: " ++ a.mac ++ ", cni-args: " ++ arguments ++ ")"
  else ""

def aboutPod (kind : EventKind) (pod text : String) : Event :=
  ⟨kind, "pod [" ++ pod ++ "]: " ++ text⟩

def of (kind : EventKind) (pod : String) (a : Attachment) : Event :=
  aboutPod kind pod (match kind with
    | .addedInterface =>
      "added interface " ++ a.interface ++ " to network: " ++ a.name ++ attributesText a
    | .failedAddingInterface =>
      "failed adding interface " ++ a.interface ++ " to network: " ++ a.name ++ attributesText a
    | .removedInterface => "removed interface " ++ a.interface ++ " from network: " ++ a.name
    | .failedRemovingInterface =>
      "failed removing interface " ++ a.interface ++ " from network: " ++ a.name
    | .interfaceAddRejected => "will not add interface to host networked pod")

def rejected (pod : String) : Event := of .interfaceAddRejected pod {}

end Event

end Hotplug
