/-!
Items by their keys: one entry a key, in the order of the keys. Of the items of a key the
last one counts.
-/
namespace Hotplug.Index

variable {α : Type}

def keys (key : α → String) (items : List α) : List String :=
  ((items.map key).eraseDups).mergeSort (· ≤ ·)

def last? (key : α → String) (items : List α) (k : String) : Option α :=
  items.reverse.find? (key · == k)

def byKey (key : α → String) (items : List α) : List (String × α) :=
  (keys key items).filterMap fun k => (last? key items k).map (k, ·)

end Hotplug.Index
