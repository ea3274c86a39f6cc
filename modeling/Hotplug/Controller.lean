import Hotplug.Pass
import Hotplug.WorkQueue.Backoff
import Hotplug.WorkQueue.Basic
/-!
The controller as a machine that takes one input at a time. It waits for the caches, queues
every pod once and lets one worker make passes; a key whose pass failed is put off and tried
again, up to a number of times. On a shutdown it works off what is queued.
-/
namespace Hotplug

inductive Phase where
  | waiting
  | running
  | draining
  | stopped
  deriving DecidableEq, Repr

inductive Worker where
  | idle
  | busy (key : String)
  | concluding (key : String)
  deriving DecidableEq, Repr

structure Controller where
  maxRetries : Nat := 2
  backoff : Backoff := {}
  phase : Phase := .waiting
  queue : WorkQueue := {}
  worker : Worker := .idle
  deriving DecidableEq, Repr

namespace Controller

inductive Input where
  | synced (pods : List Pod)
  | lost
  | shutdown
  | enqueue (key : String)
  | look
  | concluded (result : Except PassFault Unit)
  | handBack

inductive Output where
  | log (line : Log.Line)
  | begin (key : String)
  | putOff (key : String) (delay : Nat)
  deriving DecidableEq, Repr

def say (level : Log.Level) (text : String) : Output := .log ⟨level, text⟩

def greeting : Output := say .info "Waiting for informer caches to sync..."

def sweep (pods : List Pod) : List String := (pods.filter (!·.hostNetworked)).filterMap Pod.key?

def begin (c : Controller) (pods : List Pod) : Controller × List Output :=
  let keys := sweep pods
  ({ c with phase := .running, queue := keys.foldl WorkQueue.add c.queue }, [
    say .info ("Queued " ++ toString keys.length ++ " pod(s) for the startup reconciliation"),
    say .info "Pod networks controller started!"])

def abandon (c : Controller) : Controller × List Output :=
  ({ c with phase := .stopped, queue := c.queue.shutDown },
    [say .warn "Stopped before the informer caches synced!"])

def shutDown (c : Controller) : Controller × List Output :=
  ({ c with phase := .draining, queue := c.queue.shutDown }, [
    say .info ("Shutting down, draining " ++ toString c.queue.size ++ " queued pod(s)...")])

def look (c : Controller) : Controller × List Output :=
  match c.queue.get with
  | (.key key, queue) => ({ c with queue, worker := .busy key }, [.begin key])
  | (.closed, _) => ({ c with phase := .stopped }, [say .info "Pod networks controller stopped!"])
  | (.nothing, _) => (c, [])

/-- Puts a key off or drops it after a pass that failed. -/
def settleFault (c : Controller) (key : String) (fault : PassFault) :
    WorkQueue × List Output :=
  let count := c.queue.requeueCount key
  if !fault.isRetryable then
    (c.queue.forget key, [
      say .error ("Dropping pod '" ++ key ++ "' from the queue! " ++ fault.message)])
  else if count < c.maxRetries then
    (c.queue.countRequeue key, [
      say .warn ("Reconciling pod '" ++ key ++ "' failed, retrying (" ++ toString (count + 1) ++
        "/" ++ toString c.maxRetries ++ ")! " ++ fault.message),
      .putOff key (c.backoff.delay count)])
  else
    (c.queue.forget key, [
      say .error ("Dropping pod '" ++ key ++ "' from the queue after " ++
        toString c.maxRetries ++ " retries! " ++ fault.message)])

def settle (c : Controller) (key : String) (result : Except PassFault Unit) :
    WorkQueue × List Output :=
  match result with
  | .ok () => (c.queue.forget key, [])
  | .error fault => c.settleFault key fault

/-- Takes an input; one that does not fit the state changes nothing. -/
def step (c : Controller) : Input → Controller × List Output
  | .synced pods => if c.phase = .waiting then c.begin pods else (c, [])
  | .lost => if c.phase = .waiting then c.abandon else (c, [])
  | .shutdown =>
    match c.phase with
    | .waiting => c.abandon
    | .running => c.shutDown
    | .draining | .stopped => (c, [])
  | .enqueue key => ({ c with queue := c.queue.add key }, [])
  | .look =>
    match c.phase, c.worker with
    | .running, .idle | .draining, .idle => c.look
    | _, _ => (c, [])
  | .concluded result =>
    match c.worker with
    | .busy key =>
      let (queue, outputs) := c.settle key result
      ({ c with queue, worker := .concluding key }, outputs)
    | _ => (c, [])
  | .handBack =>
    match c.worker with
    | .concluding key => ({ c with queue := c.queue.done key, worker := .idle }, [])
    | _ => (c, [])

end Controller

end Hotplug
