/-!
Waiting for caches. Each cache tells whether it has synced, and may go away. The waiter goes
through them in order and passes one that has synced when it looks, for good; a cache that
went away before that ends the wait.
-/
namespace Hotplug

structure Signal where
  isSynced : Bool
  isGone : Bool := false
  deriving DecidableEq, Repr

namespace Signal

def tell (s : Signal) (isSynced : Bool) : Signal := if s.isGone then s else { s with isSynced }

def drop (s : Signal) : Signal := { s with isGone := true }

end Signal

inductive Readiness where
  | waiting (passed : Nat)
  | ready
  | lost
  deriving DecidableEq, Repr

namespace Readiness

def advance (passed : Nat) : List Signal → Readiness
  | [] => .ready
  | s :: more =>
    if s.isSynced then advance (passed + 1) more
    else if s.isGone then .lost
    else .waiting passed

def look (r : Readiness) (signals : List Signal) : Readiness :=
  match r with
  | .waiting passed => advance passed (signals.drop passed)
  | settled => settled

end Readiness

end Hotplug
