import Hotplug.Json.Numeral
import Hotplug.Text.Quoted
/-!
The supported container runtimes, and what goes wrong with them.
-/
namespace Hotplug

inductive RuntimeType where
  | containerd
  | crio
  deriving DecidableEq, Repr

namespace RuntimeType

def all : List RuntimeType := [.containerd, .crio]

def standard : RuntimeType := .containerd

def text : RuntimeType → String
  | .containerd => "containerd"
  | .crio => "crio"

def allowedValues : String := Text.joinWith ", " (all.map text)

def defaultSocket : RuntimeType → String
  | .containerd => "/run/containerd/containerd.sock"
  | .crio => "/run/crio/crio.sock"

end RuntimeType

inductive RpcCode where
  | ok
  | cancelled
  | unknown
  | invalidArgument
  | deadlineExceeded
  | notFound
  | alreadyExists
  | permissionDenied
  | resourceExhausted
  | failedPrecondition
  | aborted
  | outOfRange
  | unimplemented
  | internal
  | unavailable
  | dataLoss
  | unauthenticated
  deriving DecidableEq, Repr

def RpcCode.text : RpcCode → String
  | .ok => "Ok"
  | .cancelled => "Cancelled"
  | .unknown => "Unknown"
  | .invalidArgument => "InvalidArgument"
  | .deadlineExceeded => "DeadlineExceeded"
  | .notFound => "NotFound"
  | .alreadyExists => "AlreadyExists"
  | .permissionDenied => "PermissionDenied"
  | .resourceExhausted => "ResourceExhausted"
  | .failedPrecondition => "FailedPrecondition"
  | .aborted => "Aborted"
  | .outOfRange => "OutOfRange"
  | .unimplemented => "Unimplemented"
  | .internal => "Internal"
  | .unavailable => "Unavailable"
  | .dataLoss => "DataLoss"
  | .unauthenticated => "Unauthenticated"

structure RpcFault where
  code : RpcCode
  text : String
  deriving DecidableEq, Repr

def RpcFault.message (f : RpcFault) : String :=
  "status: " ++ f.code.text ++ ", message: " ++ Text.quoted f.text ++
    ", details: [], metadata: MetadataMap \x7b headers: \x7b\x7d \x7d"

inductive RuntimeFault where
  | missingSocketPath
  | connection (socket reason : String)
  | transport (reason : String)
  | rpc (fault : RpcFault)
  | sandboxNotFound (uid : String)
  | ambiguousSandbox (uid : String)
  | missingInfo (sandbox : String)
  | malformedInfo (sandbox : String) (fault : Json.Fault)
  | missingNetns (sandbox : String)
  | unsupportedType (text : String)
  deriving DecidableEq, Repr

namespace RuntimeFault

def message : RuntimeFault → String
  | .missingSocketPath => "Path to the CRI socket is missing!"
  | .connection socket reason =>
    "Couldn't connect to the CRI socket '" ++ socket ++ "'! Reason: " ++ reason
  | .transport reason => "CRI transport failed! Reason: " ++ reason
  | .rpc fault => "CRI call failed! Reason: " ++ fault.message
  | .sandboxNotFound uid => "ListPodSandbox returned 0 items for pod '" ++ uid ++ "'!"
  | .ambiguousSandbox uid =>
    "ListPodSandbox returned more than 1 item for pod '" ++ uid ++ "'!"
  | .missingInfo sandbox =>
    "Pod sandbox '" ++ sandbox ++ "' status is missing the 'info' entry!"
  | .malformedInfo sandbox fault =>
    "Couldn't parse pod sandbox '" ++ sandbox ++ "' status info! Reason: " ++ fault.label
  | .missingNetns sandbox =>
    "Couldn't find the network namespace of pod sandbox '" ++ sandbox ++ "'!"
  | .unsupportedType text =>
    "Unsupported runtime type '" ++ text ++ "', allowed values are: " ++
      RuntimeType.allowedValues ++ "!"

end RuntimeFault

def RuntimeType.ofText (text : String) : Except RuntimeFault RuntimeType :=
  match text with
  | "containerd" => .ok .containerd
  | "crio" => .ok .crio
  | text => .error (.unsupportedType text)

/-- Connects to the runtime's socket. What the network does is up to the caller. -/
def connectRuntime (socket : String) (connect : String → Except String Unit) :
    Except RuntimeFault Unit :=
  if socket.isEmpty then .error .missingSocketPath
  else (connect socket).mapError (.connection socket ·)

end Hotplug
