import Hotplug.WorkQueue.Backoff
import Hotplug.WorkQueue.Bell
/-!
A work queue on a clock that moves only while the caller sleeps or waits. Workers may be
parked at the queue, and the caller itself may wait at it with a limit. Keys that were put
off are added when their time comes; a limit that ends at that very time comes first.
-/
namespace Hotplug.Rehearsal

inductive Getter where
  | caller
  | worker (number : Nat)
  deriving DecidableEq, Repr

structure Bench where
  backoff : Backoff
  staffed : StaffedQueue Getter := {}
  delayed : List (Nat × String) := []
  now : Nat := 0
  workers : Nat := 0
  returned : List (Getter × WorkQueue.Offer) := []
  deriving DecidableEq, Repr

namespace Bench

def visit (b : Bench) (getter : Getter) : Bench :=
  match b.staffed.look getter with
  | (.nothing, staffed) => { b with staffed }
  | (offer, staffed) => { b with staffed, returned := b.returned ++ [(getter, offer)] }

def answerCalls : Nat → Bench → Bench
  | 0, b => b
  | fuel + 1, b =>
    match b.staffed.bell.called with
    | [] => b
    | getter :: called =>
      let bell := { b.staffed.bell with called }
      answerCalls fuel (visit { b with staffed := { b.staffed with bell } } getter)

/-- A getter that a kept ring called back looks a second time, and none looks a third. -/
def settleCalls (b : Bench) : Bench :=
  answerCalls (2 * (b.staffed.bell.waiting.length + b.staffed.bell.called.length) + 2) b

def nextDue? (b : Bench) (time : Nat) : Option Nat :=
  ((b.delayed.map (·.1)).filter (· ≤ time)).min?

/-- Adds the keys whose time has come, all of them before anyone looks. -/
def fire (b : Bench) (time : Nat) : Bench :=
  let (due, delayed) := b.delayed.partition (·.1 ≤ time)
  settleCalls { b with
    staffed := due.foldl (fun staffed entry => staffed.add entry.2) b.staffed
    delayed
    now := max b.now time }

def callerOffer? (b : Bench) : Option WorkQueue.Offer := b.returned.lookup .caller

/-- Adds the keys that are due up to some time, in the order of their times, until the caller
is back. Each round adds at least one key. -/
def passFrom (time : Nat) : Nat → Bench → Bench
  | 0, b => b
  | fuel + 1, b =>
    match b.callerOffer?, b.nextDue? time with
    | none, some due => passFrom time fuel (b.fire due)
    | _, _ => b

def passTo (b : Bench) (time : Nat) : Bench := passFrom time b.delayed.length b

def settle (b : Bench) : Bench := b.settleCalls.passTo b.now

def sleep (b : Bench) (time : Nat) : Bench :=
  { b.passTo (b.now + time) with now := b.now + time }

def dismiss (b : Bench) : WorkQueue.Offer × Bench :=
  (b.callerOffer?.getD .nothing, { b with
    returned := b.returned.filter (·.1 != .caller)
    staffed := { b.staffed with bell := b.staffed.bell.leave .caller } })

def ask (b : Bench) : WorkQueue.Offer × Bench := (b.visit .caller).settleCalls.dismiss

def wait (b : Bench) (limit : Nat) : WorkQueue.Offer × Bench :=
  let asked := (b.visit .caller).settleCalls
  let waited := if 0 < limit then asked.passTo (b.now + limit - 1) else asked
  match waited.dismiss with
  | (.nothing, left) => (.nothing, { left with now := b.now + limit })
  | found => found

def putOff (b : Bench) (key : String) : Bench :=
  { b with
    staffed := { b.staffed with work := b.staffed.work.countRequeue key }
    delayed := b.delayed ++ [(b.now + b.backoff.delay (b.staffed.work.requeueCount key), key)] }

def park (b : Bench) : Bench := { b with workers := b.workers + 1 }.visit (.worker b.workers)

inductive Step where
  | add (key : String)
  | done (key : String)
  | forget (key : String)
  | shutDown
  | putOff (key : String) (times : Nat)
  | count (key : String)
  | ask
  | wait (limit : Nat)
  | sleep (time : Nat)
  | park
  deriving DecidableEq, Repr

inductive Result where
  | nothing
  | count (n : Nat)
  | offer (offer : WorkQueue.Offer)
  | waited (offer : WorkQueue.Offer) (time : Nat)
  deriving DecidableEq, Repr

def withWork (b : Bench) (change : WorkQueue → WorkQueue) : Bench :=
  { b with staffed := { b.staffed with work := change b.staffed.work } }

def act (b : Bench) : Step → Result × Bench
  | .add key => (.nothing, { b with staffed := b.staffed.add key })
  | .done key => (.nothing, { b with staffed := b.staffed.done key })
  | .forget key => (.nothing, b.withWork (·.forget key))
  | .shutDown => (.nothing, { b with staffed := b.staffed.shutDown })
  | .putOff key times => (.nothing, times.repeat (·.putOff key) b)
  | .count key => (.count (b.staffed.work.requeueCount key), b)
  | .ask => let (offer, b) := b.ask; (.offer offer, b)
  | .wait limit => let (offer, next) := b.wait limit; (.waited offer (next.now - b.now), next)
  | .sleep time => (.nothing, b.sleep time)
  | .park => (.count b.workers, b.park)

def collect (b : Bench) : List (Nat × WorkQueue.Offer) × Bench :=
  (b.returned.filterMap fun (getter, offer) =>
    match getter with
    | .worker number => some (number, offer)
    | .caller => none, { b with returned := [] })

def perform (b : Bench) (step : Step) : Result × List (Nat × WorkQueue.Offer) × Bench :=
  let (result, b) := b.act step
  (result, b.settle.collect)

end Bench

end Hotplug.Rehearsal
