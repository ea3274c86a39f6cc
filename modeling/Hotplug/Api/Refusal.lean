import Hotplug.Text.Quoted
/-!
Refusals of the API server and how they are told.
-/
namespace Hotplug.Api

structure Refusal where
  code : Nat
  reason : String
  message : String
  deriving DecidableEq, Repr

namespace Refusal

def summary (r : Refusal) : String := r.message ++ ": " ++ r.reason

def record (r : Refusal) : String :=
  "ErrorResponse \x7b status: \"Failure\", message: " ++ Text.quoted r.message ++
    ", reason: " ++ Text.quoted r.reason ++ ", code: " ++ toString r.code ++ " \x7d"

def cause (r : Refusal) : String := "Api(" ++ r.record ++ ")"

end Refusal

end Hotplug.Api
