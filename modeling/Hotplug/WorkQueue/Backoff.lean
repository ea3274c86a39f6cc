/-!
How long a key is put off: a base delay that doubles each time, up to a greatest delay. The
factor stays below 2^32, and a product that is too long to be told counts as the greatest
delay.
-/
namespace Hotplug

/-- The delays in ticks of the clock, each below 2^64 seconds. -/
structure Backoff where
  base : Nat := 5
  greatest : Nat := 1000000
  ticksPerSecond : Nat := 1000
  deriving DecidableEq, Repr

namespace Backoff

/-- Delays from here on cannot be told. -/
def limit (b : Backoff) : Nat := UInt64.size * b.ticksPerSecond

def greatestFactor : Nat := UInt32.size - 1

def factor (times : Nat) : Nat := if times < 32 then Nat.pow 2 times else greatestFactor

def delay (b : Backoff) (times : Nat) : Nat :=
  let scaled := b.base * factor times
  if scaled < b.limit then min scaled b.greatest else b.greatest

end Backoff

end Hotplug
