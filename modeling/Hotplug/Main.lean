import Hotplug.Startup
/-!
The program. It knows no cluster, so that it ends where a client for one would be made.
-/
namespace Hotplug

def readFault : IO.Error → ReadFault
  | .noFileOrDirectory _ _ _ => .missing
  | .permissionDenied _ _ _ => .denied
  | fault => .other (toString fault)

def readContent (path : String) : IO (Except ReadFault (List UInt8)) := do
  try return .ok (← IO.FS.readBinFile path).toList
  catch fault => return .error (readFault fault)

def settingsPath (args : List String) : String :=
  match CommandLine.parse args (some "") with
  | .ok line => line.config
  | .error _ => ""

def readEnvironment : IO (List (String × String)) := do
  let names := [Startup.nodeVariable, Startup.commitVariable, Startup.logVariable]
  let values ← names.mapM fun name => return (name, ← IO.getEnv name)
  return values.filterMap fun (name, value) => value.map (name, ·)

end Hotplug

open Hotplug in
def main (args : List String) : IO UInt32 := do
  let environment ← readEnvironment
  let content ← readContent (settingsPath args)
  let outcome := Startup.run {
      environment := fun name => environment.lookup name
      contents := fun _ => content
      hasCluster := false
      connect := fun _ => .error "transport error" } args
  IO.print outcome.printed
  for (_, line) in outcome.log do
    IO.eprintln ("[" ++ line.level.text ++ "] " ++ line.text)
  return UInt32.ofNat (outcome.exit.getD 0)
