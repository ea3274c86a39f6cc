import Hotplug.Status
import Hotplug.Attachment.Parse
import Hotplug.Index
/-!
What has to change on a pod: the requested attachments that are not there, in document
order, and those that are there and not requested, in key order. A request with an
interface is met by its own key alone; one without is met by the least key of its network
that nothing else claims. The default network is left alone.
-/
namespace Hotplug

structure Plan where
  add : List Attachment := []
  remove : List Attachment := []
  deriving DecidableEq, Repr

namespace Plan

def isEmpty (plan : Plan) : Bool := plan.add.isEmpty && plan.remove.isEmpty

def attached (observed : List StatusEntry) : List StatusEntry := observed.filter (!·.isDefault)

def named (desired : List Attachment) (keys : List String) : List String :=
  ((desired.filter (!·.interface.isEmpty)).map Attachment.key).filter keys.contains

def least? : List String → Option String
  | [] => none
  | key :: keys => some (keys.foldl (fun least k => if k < least then k else least) key)

/-- The least key of the network that is not claimed yet. -/
def candidate? (entries : List StatusEntry) (claimed : List String) (network : String) :
    Option String :=
  least? (((entries.filter (·.name == network)).map StatusEntry.key).filter (!claimed.contains ·))

/-- Goes through the requests: those unmet and all claims. Of requests with equal keys the
first alone counts. -/
def assign (entries : List StatusEntry) :
    List Attachment → List String → List String → List Attachment × List String
  | [], _, claimed => ([], claimed)
  | a :: more, seen, claimed =>
    if seen.contains a.key then assign entries more seen claimed
    else
      let met : Option (List String) :=
        if a.interface.isEmpty then (candidate? entries claimed a.statusName).map (· :: claimed)
        else if claimed.contains a.key then some claimed
        else none
      match met with
      | some claimed => assign entries more (a.key :: seen) claimed
      | none =>
        let (unmet, claimed) := assign entries more (a.key :: seen) claimed
        (a :: unmet, claimed)

def removal (e : StatusEntry) : Attachment :=
  match Text.splitOnce '/' e.name.toList with
  | some (ns, name) =>
    { ns := String.ofList ns, name := String.ofList name, interface := e.interface }
  | none => { name := e.name, interface := e.interface }

def compute (desired : List Attachment) (observed : List StatusEntry) : Plan :=
  let entries := attached observed
  let index := Index.byKey StatusEntry.key entries
  let (unmet, claimed) := assign entries desired [] (named desired (index.map (·.1)))
  { add := unmet
    remove := (index.filter (!claimed.contains ·.1)).map fun (_, entry) => removal entry }

end Plan

end Hotplug
