import Hotplug.Attachment.Basic
/-!
Reading of the networks annotation: a JSON list of attachments, or the shorthand
`[namespace/]name[@interface]` with commas between the items. The first fault in document
order is the answer; grammar comes before addresses.
-/
namespace Hotplug

open Hotplug.Json Hotplug.Text

namespace Attachment

def isLabelEnd (c : Char) : Bool := ('a' ≤ c && c ≤ 'z') || ('0' ≤ c && c ≤ '9')

def isLabelChar (c : Char) : Bool := isLabelEnd c || c == '-'

def isLabel (s : List Char) : Bool :=
  s.all isLabelChar && s.head?.any isLabelEnd && s.getLast?.any isLabelEnd

def splitNamespace (item : List Char) : Except AnnotationFault (List Char × List Char) :=
  match splitAt '/' item with
  | [network] => .ok ([], network)
  | [ns, network] => .ok (trim ns, network)
  | _ => .error (.invalidObject (String.ofList item) '/')

def splitInterface (item network : List Char) : Except AnnotationFault (List Char × List Char) :=
  match splitAt '@' network with
  | [name] => .ok (trim name, [])
  | [name, interface] => .ok (trim name, trim interface)
  | _ => .error (.invalidObject (String.ofList item) '@')

def ofShorthand (item : List Char) : Except AnnotationFault Attachment := do
  let (ns, network) ← splitNamespace item
  let (name, interface) ← splitInterface item network
  if name.isEmpty then throw (.missingName (String.ofList item))
  match [ns, name, interface].find? fun segment => !segment.isEmpty && !isLabel segment with
  | some segment => throw (.invalidSegment (String.ofList segment))
  | none =>
    return { ns := String.ofList ns, name := String.ofList name,
             interface := String.ofList interface }

def isDocument (raw : String) : Bool :=
  raw.toList.any fun c => c == '[' || c == '\x7b' || c == '"'

def readAll (raw : String) : Except AnnotationFault (List Attachment) :=
  if isDocument raw then
    match decodeText (option (list decoder)) raw with
    | .ok attachments => .ok (attachments.getD [])
    | .error fault => .error (.malformedSelection fault)
  else (splitAt ',' raw.toList).mapM fun item => ofShorthand (trim item)

def settle (defaultNs : String) (a : Attachment) : Except AnnotationFault Attachment :=
  let a := if a.ns.isEmpty then { a with ns := defaultNs } else a
  a.validate.map fun _ => a

def parse (raw defaultNs : String) : Except AnnotationFault (List Attachment) :=
  if raw.isEmpty then .error .emptySelection
  else do (← readAll raw).mapM (settle defaultNs)

end Attachment

def Pod.desired (pod : Pod) : Except AnnotationFault (List Attachment) :=
  match pod.networks with
  | some raw => if raw.isEmpty then .ok [] else Attachment.parse raw (pod.ns.getD "")
  | none => .ok []

end Hotplug
