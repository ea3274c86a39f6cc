/-!
The work queue. A key waits in it at most once and is held by at most one worker; a key
added while it is held waits until the worker is done with it. A queue that is shut down
takes no more keys and hands out what it has. It also counts how often a key was put off.
-/
namespace Hotplug

structure WorkQueue where
  queue : List String := []
  dirty : List String := []
  processing : List String := []
  requeues : List (String × Nat) := []
  isShutDown : Bool := false
  deriving DecidableEq, Repr

namespace WorkQueue

def insertKey (key : String) (keys : List String) : List String :=
  if keys.contains key then keys else keys ++ [key]

def eraseKey (key : String) (keys : List String) : List String := keys.filter (· != key)

/-- Whether a key that is added now will be handed out for it. -/
def accepts (q : WorkQueue) (key : String) : Bool := !q.isShutDown && !q.dirty.contains key

/-- Whether a key that is added now is queued at once. -/
def admits (q : WorkQueue) (key : String) : Bool :=
  q.accepts key && !q.processing.contains key

def add (q : WorkQueue) (key : String) : WorkQueue :=
  if q.accepts key then
    { q with
      dirty := q.dirty ++ [key]
      queue := if q.processing.contains key then q.queue else q.queue ++ [key] }
  else q

inductive Offer where
  | key (key : String)
  | closed
  | nothing
  deriving DecidableEq, Repr

def get (q : WorkQueue) : Offer × WorkQueue :=
  match q.queue with
  | key :: queue =>
    (.key key, { q with
      queue
      dirty := eraseKey key q.dirty
      processing := insertKey key q.processing })
  | [] => (if q.isShutDown then .closed else .nothing, q)

def isAwaited (q : WorkQueue) (key : String) : Bool := q.dirty.contains key

/-- Ends the work on a key. If it was added in the meantime it is queued. -/
def done (q : WorkQueue) (key : String) : WorkQueue :=
  { q with
    processing := eraseKey key q.processing
    queue := if q.isAwaited key then q.queue ++ [key] else q.queue }

def forget (q : WorkQueue) (key : String) : WorkQueue :=
  { q with requeues := q.requeues.filter (·.1 != key) }

def requeueCount (q : WorkQueue) (key : String) : Nat := (q.requeues.lookup key).getD 0

def countRequeue (q : WorkQueue) (key : String) : WorkQueue :=
  { q with requeues := (key, q.requeueCount key + 1) :: q.requeues.filter (·.1 != key) }

def size (q : WorkQueue) : Nat := q.queue.length

def shutDown (q : WorkQueue) : WorkQueue := { q with isShutDown := true }

end WorkQueue

end Hotplug
