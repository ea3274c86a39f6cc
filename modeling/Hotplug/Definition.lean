import Hotplug.Json.Decode
import Hotplug.Pod
/-!
Network attachment definitions: named plugin configurations. A configuration without a name
of its own gets the definition's.
-/
namespace Hotplug

open Hotplug.Json Hotplug.Text

structure Definition where
  ns : Option String := none
  name : Option String := none
  config : Option String := none
  deriving DecidableEq, Repr

inductive DefinitionFault where
  | missingName
  | emptyConfig (definition : String)
  | malformedConfig (definition : String) (fault : Fault)
  deriving DecidableEq, Repr

def DefinitionFault.message : DefinitionFault → String
  | .missingName => "Network attachment definition is missing a name!"
  | .emptyConfig definition =>
    "Network attachment definition '" ++ definition ++ "' has an empty config!"
  | .malformedConfig definition fault =>
    "Network attachment definition '" ++ definition ++ "' has an invalid config! Reason: " ++
      fault.label

namespace Definition

def isNamed (d : Definition) (ns name : String) : Bool :=
  d.ns.getD "" == ns && d.name.getD "" == name

def fullName (d : Definition) : String := namespacedName (d.ns.getD "") (d.name.getD "")

def configText? (d : Definition) : Option String :=
  d.config.filter fun config => !(trim config.toList).isEmpty

def hasName (config : Members) : Bool :=
  match config.get? "name" with
  | some (.string name) => !name.isEmpty
  | _ => false

def withName (config : Members) (name : String) : Members :=
  if hasName config then config else config.insert "name" (.string name)

def pluginConfig (d : Definition) : Except DefinitionFault String :=
  match d.name, d.configText? with
  | none, _ => .error .missingName
  | some _, none => .error (.emptyConfig d.fullName)
  | some name, some config =>
    match decodeText members config with
    | .error fault => .error (.malformedConfig d.fullName fault)
    | .ok config => .ok (Value.object (withName config name)).compact

def apiVersion : String := "k8s.cni.cncf.io/v1"

def kind : String := "NetworkAttachmentDefinition"

def toJson (d : Definition) : Value := .object [
  ("apiVersion", .string apiVersion),
  ("kind", .string kind),
  ("metadata", objectOf [
    optionalMember "name" (d.name.map .string),
    optionalMember "namespace" (d.ns.map .string)]),
  ("spec", objectOf [optionalMember "config" (d.config.map .string)])]

end Definition

end Hotplug
