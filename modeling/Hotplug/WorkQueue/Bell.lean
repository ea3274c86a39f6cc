import Hotplug.WorkQueue.Basic
/-!
The bell that tells waiting workers of keys. A ring calls the worker that has waited longest
or, if none waits, is kept for the next one; no more than one ring is kept. Ringing for all
calls those that wait and is not kept.
-/
namespace Hotplug

structure Bell (ω : Type) where
  isKept : Bool := false
  waiting : List ω := []
  called : List ω := []
  deriving DecidableEq, Repr

namespace Bell

variable {ω : Type}

def ringOne (bell : Bell ω) : Bell ω :=
  match bell.waiting with
  | w :: waiting => { bell with waiting, called := bell.called ++ [w] }
  | [] => { bell with isKept := true }

def ringAll (bell : Bell ω) : Bell ω :=
  { bell with waiting := [], called := bell.called ++ bell.waiting }

/-- Waits for a ring. One that is kept calls the worker back at once. -/
def await (bell : Bell ω) (w : ω) : Bell ω :=
  if bell.isKept then { bell with isKept := false, called := bell.called ++ [w] }
  else { bell with waiting := bell.waiting ++ [w] }

def leave [DecidableEq ω] (bell : Bell ω) (w : ω) : Bell ω :=
  { bell with waiting := bell.waiting.filter (· != w) }

end Bell

structure StaffedQueue (ω : Type) where
  work : WorkQueue := {}
  bell : Bell ω := {}
  deriving DecidableEq, Repr

namespace StaffedQueue

variable {ω : Type}

def ringIf (rings : Bool) (bell : Bell ω) : Bell ω := if rings then bell.ringOne else bell

def add (s : StaffedQueue ω) (key : String) : StaffedQueue ω :=
  { work := s.work.add key, bell := ringIf (s.work.admits key) s.bell }

def done (s : StaffedQueue ω) (key : String) : StaffedQueue ω :=
  { work := s.work.done key, bell := ringIf (s.work.isAwaited key) s.bell }

def shutDown (s : StaffedQueue ω) : StaffedQueue ω :=
  { work := s.work.shutDown, bell := s.bell.ringAll.ringOne }

def look (s : StaffedQueue ω) (w : ω) : WorkQueue.Offer × StaffedQueue ω :=
  match s.work.get with
  | (.nothing, work) => (.nothing, { work, bell := s.bell.await w })
  | (offer, work) => (offer, { s with work })

end StaffedQueue

end Hotplug
