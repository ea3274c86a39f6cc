import Hotplug.Text.Basic
/-!
File paths as texts. Empty pieces and single dots at the end of a path name nothing of
their own.
-/
namespace Hotplug.Path

open Hotplug.Text

/-- The name of what the path leads to; a path to a parent leads to no name. -/
def name? (path : String) : Option (List Char) :=
  match ((splitAt '/' path.toList).filter fun p => p ≠ [] ∧ p ≠ ['.']).getLast? with
  | some name => if name = ['.', '.'] then none else some name
  | none => none

/-- What follows the last dot of the name, unless the name starts with it. -/
def extension? (path : String) : Option String := do
  let pieces := splitAt '.' (← name? path)
  let stem := pieces.dropLast
  if stem = [] ∨ stem = [[]] then none
  else pieces.getLast?.map String.ofList

def join (directory file : String) : String :=
  if directory.isEmpty || directory.toList.getLast? == some '/' then directory ++ file
  else directory ++ "/" ++ file

end Hotplug.Path
