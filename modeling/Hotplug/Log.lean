import Hotplug.Text.Basic
/-!
Log lines, and the directives that say which of them are written. The directive with the
longest name that a line's source begins with decides.
-/
namespace Hotplug

open Hotplug.Text

namespace Log

inductive Level where
  | error
  | warn
  | info
  | debug
  | trace
  deriving DecidableEq, Repr

def Level.rank : Level → Nat
  | .error => 1
  | .warn => 2
  | .info => 3
  | .debug => 4
  | .trace => 5

def Level.text : Level → String
  | .error => "ERROR"
  | .warn => "WARN"
  | .info => "INFO"
  | .debug => "DEBUG"
  | .trace => "TRACE"

structure Line where
  level : Level
  text : String
  deriving DecidableEq, Repr

def Line.shown (line : Line) : String := line.level.text ++ " " ++ line.text

/-- The greatest rank written for sources with a prefix; rank zero writes nothing. -/
structure Directive where
  source : Option String
  rank : Nat
  deriving DecidableEq, Repr

def upper (text : String) : String := text.map Char.toUpper

def rank? (text : String) : Option Nat :=
  match upper text with
  | "OFF" => some 0
  | "ERROR" => some 1
  | "WARN" => some 2
  | "INFO" => some 3
  | "DEBUG" => some 4
  | "TRACE" => some 5
  | _ => none

def directive? (piece : List Char) : Option Directive :=
  match splitAt '=' piece with
  | [whole] =>
    if whole.isEmpty then none
    else match rank? (String.ofList whole) with
      | some rank => some ⟨none, rank⟩
      | none => some ⟨some (String.ofList whole), 5⟩
  | [source, level] =>
    let level := trim level
    if level.isEmpty then some ⟨some (String.ofList source), 5⟩
    else (rank? (String.ofList level)).map fun rank => ⟨some (String.ofList source), rank⟩
  | _ => none

/-- The directives of a specification, and the text that lines must contain if it names one
behind a slash. A second slash spoils all of it. -/
def parseSpec (spec : String) : List Directive × Option String :=
  let directives (list : List Char) : List Directive :=
    (splitAt ',' list).filterMap fun piece => directive? (trim piece)
  match splitAt '/' spec.toList with
  | [list] => (directives list, none)
  | [list, needle] => (directives list, some (String.ofList needle))
  | _ => ([], none)

/-- A later directive replaces an earlier one for the same source. -/
def insert (directives : List Directive) (d : Directive) : List Directive :=
  if directives.any (·.source == d.source) then
    directives.map fun other => if other.source == d.source then d else other
  else directives ++ [d]

def Directive.weight (d : Directive) : Nat := (d.source.map String.utf8ByteSize).getD 0

def Directive.covers (d : Directive) (source : String) : Bool :=
  match d.source with
  | none => true
  | some start => start.toList.isPrefixOf source.toList

structure Policy where
  directives : List Directive
  needle : Option String

def Policy.rank (policy : Policy) (source : String) : Nat :=
  let sorted := policy.directives.mergeSort fun a b => a.weight ≤ b.weight
  ((sorted.reverse.find? (·.covers source)).map (·.rank)).getD 0

def isInfix (needle : List Char) : List Char → Bool
  | [] => needle.isEmpty
  | c :: s => needle.isPrefixOf (c :: s) || isInfix needle s

def Policy.writes (policy : Policy) (source : String) (line : Line) : Bool :=
  line.level.rank ≤ policy.rank source &&
    match policy.needle with
    | some needle => isInfix needle.toList line.text.toList
    | none => true

def controllerSource : String := "dynamic_networks_controller"

def clientSource : String := "dynamic_networks_core::cri::client"

def clientRoot : String := "dynamic_networks_core"

/-- Info and above, debug lines of the program itself if verbose, and then whatever the
environment's specification says. -/
def policy (verbose : Bool) (spec : Option String) : Policy :=
  let own : List Directive :=
    if verbose then [⟨some controllerSource, 4⟩, ⟨some clientRoot, 4⟩] else []
  let (more, needle) := (spec.map parseSpec).getD ([], none)
  ⟨(own ++ more).foldl insert [⟨none, 3⟩], needle⟩

end Log

end Hotplug
