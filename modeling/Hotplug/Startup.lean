import Hotplug.CommandLine
import Hotplug.Log
import Hotplug.Settings
/-!
The start of the program up to the connection to the container runtime: command line,
settings, cluster client, runtime. Each failure ends the program with its own exit code.
-/
namespace Hotplug

namespace Startup

structure Surroundings where
  environment : String → Option String
  contents : String → Except ReadFault (List UInt8)
  hasCluster : Bool
  connect : String → Except String Unit

/-- How the start went: the exit code if it ended the program, what was printed, and the
log lines with their sources. -/
structure Outcome where
  exit : Option Nat
  printed : String
  log : List (String × Log.Line)

def programName : String := "dynamic-networks-controller"

def versionText : String := programName ++ " 0.1.0\n"

def helpText (nodeName : Option String) : String :=
  "A node-local controller hot-plugging secondary network interfaces into running pods\n\n" ++
  "Usage: " ++ programName ++ " [OPTIONS] --node-name <NODE_NAME>\n\n" ++
  "Options:\n" ++
  "      --config <CONFIG>            path to the controller's configuration file [default: " ++
    CommandLine.defaultConfig ++ "]\n" ++
  "      --node-name <NODE_NAME>      name of the node this controller instance manages " ++
    "[env: NODE_NAME=" ++ nodeName.getD "" ++ "]\n" ++
  "      --max-retries <MAX_RETRIES>  how many times a failed reconciliation is retried " ++
    "before the pod is dropped [default: 2]\n" ++
  "  -v, --verbose                    enable verbose output\n" ++
  "  -h, --help                       Print help\n" ++
  "  -V, --version                    Print version\n"

def commitVariable : String := "DYNAMIC_NETWORK_CONTROLLER_COMMIT_HASH"

def nodeVariable : String := "NODE_NAME"

def logVariable : String := "RUST_LOG"

def version (s : Surroundings) : String := (s.environment commitVariable).getD "SHA-NOT-FOUND"

def own (level : Log.Level) (text : String) : String × Log.Line :=
  (Log.controllerSource, ⟨level, text⟩)

def ended (exit : Nat) (log : List (String × Log.Line)) : Outcome := ⟨some exit, "", log⟩

def connectLines (socket : String) : List (String × Log.Line) :=
  if socket.isEmpty then []
  else [(Log.clientSource, ⟨.debug, "Connecting to the CRI socket '" ++ socket ++ "'..."⟩)]

/-- The start after the command line has been read. -/
def proceed (s : Surroundings) (line : CommandLine) : Outcome :=
  let greeting := own .info ("Starting pod networks controller version " ++ version s)
  match Settings.load s.contents line.config with
  | .error fault =>
    ended 1 [greeting, own .error ("Couldn't load the controller config! " ++ fault.message)]
  | .ok settings =>
    if !s.hasCluster then ended 2 [greeting, own .error "Couldn't create client!"]
    else
      let connecting := connectLines settings.runtimeSocket
      match connectRuntime settings.runtimeSocket s.connect with
      | .error fault =>
        ended 2 (greeting :: connecting ++ [own .error ("Couldn't connect to the " ++
          settings.runtime.text ++ " runtime! " ++ fault.message)])
      | .ok () =>
        ⟨none, "", greeting :: connecting ++ [
          own .info ("Using the " ++ settings.runtime.text ++ " runtime at '" ++
            settings.runtimeSocket ++ "' and the delegate at '" ++
            settings.delegateSocket ++ "'"),
          own .info "Creating pod and network attachment definition watchers..."]⟩

def run (s : Surroundings) (args : List String) : Outcome :=
  match CommandLine.parse args (s.environment nodeVariable) with
  | .error .displayHelp => ⟨some 0, helpText (s.environment nodeVariable), []⟩
  | .error .displayVersion => ⟨some 0, versionText, []⟩
  | .error _ => ⟨some 2, "", []⟩
  | .ok line =>
    let outcome := proceed s line
    let policy := Log.policy line.verbose (s.environment logVariable)
    { outcome with log := outcome.log.filter fun (source, l) => policy.writes source l }

end Startup

end Hotplug
