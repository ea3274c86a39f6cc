import Hotplug.Api.Refusal
import Hotplug.Definition
import Hotplug.Event
import Hotplug.Log
import Hotplug.Delegate.Basic
import Hotplug.Sandbox.Fault
import Hotplug.Sandbox.Message
/-!
Programs that work on the world one effect at a time. What an effect does, and what it
answers, is up to the handler that runs the program.
-/
namespace Hotplug

inductive Effect where
  | findPod (ns name : String)
  | findDefinition (ns name : String)
  | listSandboxes (request : Sandbox.ListRequest)
  | sandboxStatus (request : Sandbox.StatusRequest)
  | invoke (request : Delegate.Request)
  | publish (pod : Pod) (event : Event)
  /-- Replaces the status annotation of the pod of a name. -/
  | writeStatus (ns name status : String)
  | log (line : Log.Line)
  deriving DecidableEq

namespace Effect

abbrev Answer : Effect → Type
  | findPod _ _ => Option Pod
  | findDefinition _ _ => Option Definition
  | listSandboxes _ => Except RuntimeFault Sandbox.ListResponse
  | sandboxStatus _ => Except RuntimeFault Sandbox.StatusResponse
  | invoke _ => Except Delegate.DelegateFault Delegate.Response
  | publish _ _ => Unit
  | writeStatus _ _ _ => Except Api.Refusal Unit
  | log _ => Unit

end Effect

/-- A program that is done, or goes on with the answer to an effect. -/
inductive Action (α : Type) where
  | done (value : α)
  | step (effect : Effect) (next : effect.Answer → Action α)

namespace Action

variable {α β : Type}

def bind : Action α → (α → Action β) → Action β
  | done a, f => f a
  | step e next, f => step e fun answer => bind (next answer) f

instance : Monad Action where
  pure := done
  bind := bind

def ask (e : Effect) : Action e.Answer := step e done

def tell (level : Log.Level) (text : String) : Action Unit := ask (.log ⟨level, text⟩)

def run {σ : Type} (handle : (e : Effect) → σ → e.Answer × σ) : Action α → σ → α × σ
  | done a, s => (a, s)
  | step e next, s =>
    let (answer, s) := handle e s
    run handle (next answer) s

end Action

end Hotplug
