import Hotplug.Sandbox.Fault
import Hotplug.Json.Decode
import Hotplug.Path
/-!
The controller's settings: the container runtime and where it and the delegate listen. Empty
texts stand for the defaults.
-/
namespace Hotplug

open Hotplug.Json Hotplug.Text

structure Settings where
  runtime : RuntimeType
  runtimeSocket : String
  delegatePath : String
  deriving DecidableEq, Repr

inductive ReadFault where
  | missing
  | directory
  | notDirectory
  | denied
  | other (reason : String)
  deriving DecidableEq, Repr

def ReadFault.reason : ReadFault → String
  | .missing => "No such file or directory (os error 2)"
  | .directory => "Is a directory (os error 21)"
  | .notDirectory => "Not a directory (os error 20)"
  | .denied => "Permission denied (os error 13)"
  | .other reason => reason

inductive SettingsFault where
  | read (path : String) (fault : ReadFault)
  | parse (fault : Fault)
  | invalidRuntime (fault : RuntimeFault)
  deriving DecidableEq, Repr

def SettingsFault.message : SettingsFault → String
  | .read path fault => "Couldn't read the config file '" ++ path ++ "'! Reason: " ++ fault.reason
  | .parse fault => "Couldn't parse the config file! Reason: " ++ fault.label
  | .invalidRuntime fault => "Invalid CRI type! " ++ fault.message

namespace Settings

def defaultDelegatePath : String := "/var/run/multus-cni/"

def delegateSocketName : String := "multus.sock"

structure Written where
  runtimeSocket : String := ""
  runtime : String := ""
  delegatePath : String := ""
  deriving DecidableEq, Repr

def Written.decoder : Decoder Written := record [
  field "criSocketPath" string fun v w => { w with runtimeSocket := v },
  field "criType" string fun v w => { w with runtime := v },
  field "multusSocketPath" string fun v w => { w with delegatePath := v }] {}

def orElse (text fallback : String) : String := if text.isEmpty then fallback else text

def parse (document : List UInt8) : Except SettingsFault Settings := do
  let written ← (decode Written.decoder (Symbol.ofBytes document)).mapError .parse
  let runtime ←
    if written.runtime.isEmpty then pure RuntimeType.standard
    else (RuntimeType.ofText written.runtime).mapError .invalidRuntime
  return { runtime
           runtimeSocket := orElse written.runtimeSocket runtime.defaultSocket
           delegatePath := orElse written.delegatePath defaultDelegatePath }

def load (read : String → Except ReadFault (List UInt8)) (path : String) :
    Except SettingsFault Settings := do
  parse (← (read path).mapError (.read path ·))

/-- The delegate's socket; a directory stands for the one inside it. -/
def delegateSocket (s : Settings) : String :=
  if Path.extension? s.delegatePath == some "sock" then s.delegatePath
  else Path.join s.delegatePath delegateSocketName

end Settings

end Hotplug
