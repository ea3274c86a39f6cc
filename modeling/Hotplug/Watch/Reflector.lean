import Hotplug.Log
import Hotplug.Sightings
import Hotplug.Text.FormEncoded
import Hotplug.Watch.Cache
/-!
Reflectors keep a cache up to date and tell when it has synced. The one of the pods also
names the keys of the pods whose networks changed.
-/
namespace Hotplug.Watch

open Hotplug.Text

def podKind : String := "Pod"

def podPath : String := "/api/v1/pods"

def definitionPath : String :=
  "/apis/" ++ Definition.apiVersion ++ "/network-attachment-definitions"

def podQuery (node : String) : String := FormEncoded.encode (fieldSelector node)

def failure (kind reason : String) : Log.Line := ⟨.warn, kind ++ " watcher failed! " ++ reason⟩

def synced (kind : String) (count : Nat) (what : String) : Log.Line :=
  ⟨.info, kind ++ " cache synced with " ++ toString count ++ " " ++ what ++ "(s)"⟩

structure PodReflector where
  cache : Cache Pod := {}
  sightings : Sightings := {}
  isSynced : Bool := false
  deriving DecidableEq, Repr

def PodReflector.handle (r : PodReflector) (event : Event Pod) :
    List String × List Log.Line × PodReflector :=
  let r := { r with cache := r.cache.handle event }
  match event with
  | .applied pod =>
    let (key, sightings) := r.sightings.observe pod
    (key.toList, [], { r with sightings })
  | .deleted pod => ([], [], { r with sightings := r.sightings.forget pod })
  | .restarted pods =>
    let (keys, sightings) := r.sightings.restart pods
    (keys, if r.isSynced then [] else [synced podKind sightings.size "pod"],
      { r with sightings, isSynced := true })
  | .failed reason => ([], [failure podKind reason], r)

def PodReflector.receive (r : PodReflector) :
    List (Message Pod) → List String × List Log.Line × PodReflector
  | [] => ([], [], r)
  | message :: more =>
    match message.event? with
    | none => r.receive more
    | some event =>
      let (keys, lines, next) := r.handle event
      let (moreKeys, moreLines, last) := next.receive more
      (keys ++ moreKeys, lines ++ moreLines, last)

structure DefinitionReflector where
  cache : Cache Definition := {}
  isSynced : Bool := false
  deriving DecidableEq, Repr

def DefinitionReflector.handle (r : DefinitionReflector) (event : Event Definition) :
    List Log.Line × DefinitionReflector :=
  let r := { r with cache := r.cache.handle event }
  match event with
  | .applied _ | .deleted _ => ([], r)
  | .restarted definitions =>
    (if r.isSynced then [] else [synced Definition.kind definitions.length "definition"],
      { r with isSynced := true })
  | .failed reason => ([failure Definition.kind reason], r)

def DefinitionReflector.receive (r : DefinitionReflector) :
    List (Message Definition) → List Log.Line × DefinitionReflector
  | [] => ([], r)
  | message :: more =>
    match message.event? with
    | none => r.receive more
    | some event =>
      let (lines, next) := r.handle event
      let (moreLines, last) := next.receive more
      (lines ++ moreLines, last)

end Hotplug.Watch
