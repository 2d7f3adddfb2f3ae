import Retrieval.Number.RealText
import Retrieval.Time.Calendar

/-!
# Moments

A moment is a calendar date and a time of day to the microsecond, counted in microseconds from the
beginning of year 1, with or without an offset from universal time. A moment without an offset is
read as universal time.

Where an offset is in force by the rules of a region, clocks there are put forward and back. A local
time that comes twice or never has two readings with an offset each.
-/

namespace Retrieval.Time

def microsPerSecond : Int := 1000000

def microsPerDay : Int := 86400 * microsPerSecond

structure Region where
  name : String
  /-- The local time is given its second reading. -/
  fold : Bool
  /-- The offset of the other reading; the same one for most local times. -/
  other : Int
deriving DecidableEq, Repr

/-- What local time is ahead of universal time, and the region if it is so by the rules of one. -/
structure Zone where
  offset : Int
  region : Option Region
deriving DecidableEq, Repr

structure Moment where
  /-- Local time since the beginning of year 1. -/
  micros : Int
  zone : Option Zone
deriving DecidableEq, Repr, Inhabited

structure Clock where
  hour : Nat
  minute : Nat
  second : Nat
  micro : Nat
deriving DecidableEq, Repr

namespace Clock

def isValid (c : Clock) : Bool := c.hour < 24 && c.minute < 60 && c.second < 60 && c.micro < 1000000

def micros (c : Clock) : Int :=
  ((c.hour * 60 + c.minute) * 60 + c.second : Nat) * microsPerSecond + c.micro

def ofMicros (n : Nat) : Clock :=
  ⟨n / 3600000000, n / 60000000 % 60, n / 1000000 % 60, n % 1000000⟩

end Clock

namespace Moment

def offset (m : Moment) : Option Int := m.zone.map (·.offset)

def fixed (micros : Int) (offset : Option Int) : Moment := ⟨micros, offset.map (⟨·, none⟩)⟩

def ofDateClock (date : Date) (clock : Clock) (offset : Option Int) : Moment :=
  .fixed (((date.toDay : Int) - 1) * microsPerDay + clock.micros) offset

def day (m : Moment) : Nat := (m.micros / microsPerDay + 1).toNat

def date (m : Moment) : Date := Date.ofDay m.day

def clock (m : Moment) : Clock := Clock.ofMicros (m.micros % microsPerDay).toNat

/-- Microseconds of universal time since the beginning of year 1. -/
def instant (m : Moment) : Int := m.micros - m.offset.getD 0

/-- The moments of the years 1 to 9999. -/
def inCalendar (micros : Int) : Bool := 0 ≤ micros && micros < lastDay * microsPerDay

@[simp] theorem instant_fixed_zero (micros : Int) : (fixed micros (some 0)).instant = micros :=
  Int.sub_zero micros

/-- A moment without an offset taken as universal time. -/
def assumeUniversal (m : Moment) : Moment := { m with zone := some (m.zone.getD ⟨0, none⟩) }

@[simp] theorem instant_assumeUniversal (m : Moment) : m.assumeUniversal.instant = m.instant := by
  rcases m with ⟨micros, _ | zone⟩ <;> rfl

/-- The same instant in universal time, unless it leaves the calendar. -/
def toUniversal? (m : Moment) : Option Moment :=
  if inCalendar m.instant then some (.fixed m.instant (some 0)) else none

def later (m : Moment) (micros : Int) : Moment := { m with micros := m.micros + micros }

def epoch : Moment := .ofDateClock ⟨1970, 1, 1⟩ ⟨0, 0, 0, 0⟩ (some 0)

/-- Microseconds of universal time since the beginning of 1970. -/
def epochMicros (m : Moment) : Int := m.instant - epoch.micros

end Moment

end Retrieval.Time
