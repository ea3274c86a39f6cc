import Hotplug.Json.Decode
/-!
The verbose status of a sandbox: the namespaces its process lives in.
-/
namespace Hotplug.Sandbox

open Hotplug.Json

structure LinuxNamespace where
  type : String := ""
  path : String := ""
  deriving DecidableEq, Repr

/-- A status; one that names no system has no namespaces. -/
structure Info where
  namespaces : List LinuxNamespace := []
  deriving DecidableEq, Repr

namespace Info

def namespaceDecoder : Decoder LinuxNamespace := record [
  requiredField "type" string fun v n => { n with type := v },
  field "path" string fun v n => { n with path := v }] {}

def linuxDecoder : Decoder (List LinuxNamespace) := record [
  field "namespaces" (list namespaceDecoder) fun v _ => v] []

def specDecoder : Decoder (List LinuxNamespace) := record [
  field "linux" (option linuxDecoder) fun v _ => v.getD []] []

def decoder : Decoder Info := record [
  field "runtimeSpec" specDecoder fun v i => { i with namespaces := v }] {}

def parse (text : String) : Except Fault Info := decodeText decoder text

/-- The path of the first network namespace, unless it is empty. -/
def netns? (info : Info) : Option String :=
  match info.namespaces.find? (·.type == "network") with
  | some n => if n.path.isEmpty then none else some n.path
  | none => none

end Info

end Hotplug.Sandbox
