import Hotplug.Controller
import Hotplug.Rehearsal.World
/-!
A run of the controller against a scripted world on a clock. Passes take no time except for
calls with a delay. Of what happens at one time, what was known first comes first.
-/
namespace Hotplug.Rehearsal

inductive Happening where
  | change (change : Change)
  | input (input : Controller.Input)
  | sync
  | answered

inductive Stage where
  | idle
  | going (pass : Action (Except PassFault Unit))
  | suspended (pass : Action (Except PassFault Unit))

structure Timeline where
  world : World
  controller : Controller
  stage : Stage := .idle
  agenda : List (Nat × Happening)
  now : Nat := 0
  /-- The effects so far with their times, the latest first. -/
  trace : List (Nat × Effect) := []

namespace Timeline

def emit (t : Timeline) (e : Effect) : Timeline := { t with trace := (t.now, e) :: t.trace }

def absorb (t : Timeline) : Controller.Output → Timeline
  | .log line => t.emit (.log line)
  | .begin key => { t with stage := .going (Pass.reconcile key) }
  | .putOff key delay =>
    { t with agenda := t.agenda ++ [(t.now + delay, .input (.enqueue key))] }

def feed (t : Timeline) (input : Controller.Input) : Timeline :=
  let (controller, outputs) := t.controller.step input
  outputs.foldl absorb { t with controller }

/-- Runs a pass up to its end or a call that takes time. -/
def advance (t : Timeline) : Action (Except PassFault Unit) → Timeline
  | .done result =>
    (({ t with stage := .idle }.feed (.concluded result)).feed .handBack).feed .look
  | .step e next =>
    let delay := t.world.delay e
    let (answer, world) := t.world.answer e
    let t := { t with world }.emit e
    if delay = 0 then t.advance (next answer)
    else { t with
      stage := .suspended (next answer)
      agenda := t.agenda ++ [(t.now + delay, .answered)] }

def earliest? : List (Nat × Happening) → Option ((Nat × Happening) × List (Nat × Happening))
  | [] => none
  | entry :: more =>
    match earliest? more with
    | none => some (entry, more)
    | some (other, rest) =>
      if other.1 < entry.1 then some (other, entry :: rest) else some (entry, more)

def occur (t : Timeline) : Happening → Timeline
  | .change change => { t with world := t.world.change change }
  | .input input => (t.feed input).feed .look
  | .sync => (t.feed (.synced t.world.pods)).feed .look
  | .answered =>
    match t.stage with
    | .suspended pass => { t with stage := .going pass }
    | _ => t

def turn? (t : Timeline) : Option Timeline :=
  if t.controller.phase = .stopped then none
  else match t.stage with
    | .going pass => some (t.advance pass)
    | _ => (earliest? t.agenda).map fun (entry, agenda) =>
      { t with agenda, now := max t.now entry.1 }.occur entry.2

def run : Nat → Timeline → Timeline
  | 0, t => t
  | turns + 1, t =>
    match t.turn? with
    | some t => run turns t
    | none => t

/-- A run of this many turns has no end in sight. -/
def patience : Nat := 1000000000000

def play (world : World) (controller : Controller) (agenda : List (Nat × Happening)) :
    Timeline :=
  run patience (absorb { world, controller, agenda } Controller.greeting)

end Timeline

end Hotplug.Rehearsal
