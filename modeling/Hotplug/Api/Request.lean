import Hotplug.Api.Refusal
import Hotplug.Event
import Hotplug.Log
/-!
What the controller sends to the API server: the patch that replaces a pod's network status
and the events about it. A pod without a namespace has its events in the system's.
-/
namespace Hotplug.Api

open Hotplug.Json

inductive Method where
  | patch
  | post
  deriving DecidableEq, Repr

def Method.text : Method → String
  | .patch => "PATCH"
  | .post => "POST"

structure Request where
  method : Method
  target : String
  contentType : String
  body : Value
  deriving DecidableEq, Repr

def fieldManager : String := "pod-networks-controller"

def reporter : String := "pod-networks-updates"

def systemNamespace : String := "kube-system"

def statusPatch (ns name status : String) : Request where
  method := .patch
  target := "/api/v1/namespaces/" ++ ns ++ "/pods/" ++ name ++ "/status?&fieldManager=" ++
    fieldManager
  contentType := "application/merge-patch+json"
  body := .object [("metadata", .object [("annotations", .object [(statusKey, .string status)])])]

def reference (pod : Pod) : Value := objectOf [
  member "apiVersion" (.string "v1"),
  member "kind" (.string "Pod"),
  optionalMember "name" (pod.name.map .string),
  optionalMember "namespace" (pod.ns.map .string),
  optionalMember "uid" (pod.uid.map .string)]

def eventPost (node time : String) (pod : Pod) (event : Event) : Request where
  method := .post
  target := "/apis/events.k8s.io/v1/namespaces/" ++ pod.ns.getD systemNamespace ++ "/events?"
  contentType := "application/json"
  body := .object [
    ("action", .string event.kind.action),
    ("apiVersion", .string "events.k8s.io/v1"),
    ("eventTime", .string time),
    ("kind", .string "Event"),
    ("metadata", objectOf [
      member "generateName" (.string (reporter ++ "-")),
      optionalMember "namespace" (pod.ns.map .string)]),
    ("note", .string event.message),
    ("reason", .string event.kind.reason),
    ("regarding", reference pod),
    ("reportingController", .string reporter),
    ("reportingInstance", .string node),
    ("type", .string (if event.kind.isWarning then "Warning" else "Normal"))]

def eventLog (kind : EventKind) (answer : Except Refusal Unit) : List Log.Line :=
  match answer with
  | .ok () => []
  | .error refusal =>
    [⟨.warn, "Couldn't publish " ++ kind.reason ++ " event! " ++ refusal.cause⟩]

end Hotplug.Api
