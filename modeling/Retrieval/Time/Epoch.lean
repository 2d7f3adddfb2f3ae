import Retrieval.Time.Moment

/-!
# Moments as seconds since 1970

A number of seconds names a moment of universal time to the nearest microsecond, a half going to
the even one; numbers outside the calendar name none.
-/

namespace Retrieval.Time

open Number

namespace Moment

def ofEpochMicros? (micros : Int) : Option Moment :=
  (fixed (epoch.micros + micros) (some 0)).toUniversal?

def ofEpochSeconds? (seconds : Int) : Option Moment := ofEpochMicros? (seconds * microsPerSecond)

/-- Seconds as microseconds; the fraction is rounded as a double of its own. -/
def microsOfSeconds? (seconds : Float) : Option Int := do
  let whole := (← Binary.ofFloat? seconds).truncate
  let micros ← Binary.ofFloat? ((seconds - Float.ofInt whole) * 1000000)
  some (whole * microsPerSecond + micros.nearest)

def ofEpoch? (seconds : Float) : Option Moment := (microsOfSeconds? seconds).bind ofEpochMicros?

def toEpoch (m : Moment) : Float :=
  let size := Float.ofScientific m.epochMicros.natAbs true 6
  if m.epochMicros < 0 then -size else size

/-- Whole seconds since 1970, in the direction of zero. -/
def epochSeconds (m : Moment) : Int := ((Binary.ofFloat? m.toEpoch).map Binary.truncate).getD 0

end Moment

end Retrieval.Time
