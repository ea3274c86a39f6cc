import Hotplug.Delegate.Basic
/-!
The exchange with the delegate: one request on a connection of its own, and how it ends.
-/
namespace Hotplug.Delegate

open Hotplug.Text

def endpoint : String := "/delegate"

def host : String := "dummy"

def Request.exchangeText (r : Request) : String :=
  "POST " ++ endpoint ++ " HTTP/1.1\r\nhost: " ++ host ++
    "\r\ncontent-type: application/json\r\ncontent-length: " ++
    toString r.payload.utf8ByteSize ++ "\r\n\r\n" ++ r.payload

/-- Only an answer with status 200 holds a response. -/
def Response.ofAnswer (status : Nat) (body : List UInt8) : Except DelegateFault Response :=
  if status = 200 then Response.parse body
  else .error (.unexpectedStatus status (Symbol.lossy (Symbol.ofBytes body)))

inductive Ending where
  | answered (status : Nat) (body : List UInt8)
  | closed
  | silent
  | unreachable (reason : String)
  deriving DecidableEq, Repr

namespace Ending

/-- Whether answers with a status have no body, whatever follows them. -/
def isBodiless (status : Nat) : Bool := status == 204 || status == 304

def outcome (socket : String) : Ending → Except DelegateFault Response
  | .answered status body => Response.ofAnswer status (if isBodiless status then [] else body)
  | .closed => .error (.transport "connection closed before message completed")
  | .silent => .error .timeout
  | .unreachable reason => .error (.connection socket reason)

end Ending

end Hotplug.Delegate
