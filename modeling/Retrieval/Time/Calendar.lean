/-!
# The calendar

Days are counted from day 1, the first day of year 1, in the calendar whose leap years are those
divisible by four, centuries only when divisible by four hundred. Years run from 1 to 9999.
-/

namespace Retrieval.Time

structure Date where
  year : Nat
  month : Nat
  day : Nat
deriving DecidableEq, Repr, Inhabited

def isLeap (year : Nat) : Bool := year % 4 = 0 && (year % 100 ≠ 0 || year % 400 = 0)

def monthLengths (year : Nat) : List Nat :=
  [31, if isLeap year then 29 else 28, 31, 30, 31, 30, 31, 31, 30, 31, 30, 31]

def monthLength (year month : Nat) : Nat := (monthLengths year).getD (month - 1) 0

def daysBeforeYear (year : Nat) : Nat :=
  let y := year - 1
  365 * y + y / 4 - y / 100 + y / 400

def lastYear : Nat := 9999

def lastDay : Nat := daysBeforeYear (lastYear + 1)

namespace Date

def isValid (d : Date) : Bool :=
  1 ≤ d.year && d.year ≤ lastYear && 1 ≤ d.month && d.month ≤ 12 && 1 ≤ d.day &&
    d.day ≤ monthLength d.year d.month

def toDay (d : Date) : Nat :=
  daysBeforeYear d.year + ((monthLengths d.year).take (d.month - 1)).foldl (· + ·) 0 + d.day

/-- Month and day of the day with `rest` days before it, counted from the month `month` on. -/
def monthAndDay (month rest : Nat) : List Nat → Nat × Nat
  | [] => (month, rest + 1)
  | length :: lengths =>
      if rest < length then (month, rest + 1) else monthAndDay (month + 1) (rest - length) lengths

/-- The year of a day. The estimate from the mean length of a year is never too late by more than
one year. -/
def yearOfDay (day : Nat) : Nat :=
  let year := (day - 1) * 400 / 146097 + 1
  if daysBeforeYear (year + 1) < day then year + 1
  else if day ≤ daysBeforeYear year then year - 1
  else year

def ofDay (day : Nat) : Date :=
  let year := yearOfDay day
  let (month, day) := monthAndDay 1 (day - daysBeforeYear year - 1) (monthLengths year)
  ⟨year, month, day⟩

/-- Days since Monday. -/
def weekday (d : Date) : Nat := (d.toDay + 6) % 7

end Date

/-- The day number of the Monday that opens week 1, the week of the first Thursday of the year. It
is not positive when it lies before day 1. -/
def firstMonday (year : Nat) : Int :=
  let first : Int := daysBeforeYear year + 1
  let weekday : Int := (first + 6) % 7
  let monday := first - weekday
  if 3 < weekday then monday + 7 else monday

/-- Years that begin on a Thursday, and leap years that begin on a Wednesday, have week 53. -/
def hasLongWeekYear (year : Nat) : Bool :=
  let weekday := (daysBeforeYear year + 7) % 7
  weekday = 3 || (weekday = 2 && isLeap year)

def Date.ofWeek? (year week weekday : Nat) : Option Date :=
  if (1 ≤ week ∧ (week < 53 ∨ (week = 53 ∧ hasLongWeekYear year = true))) ∧
      1 ≤ weekday ∧ weekday ≤ 7 then
    let day := firstMonday year + ((week - 1) * 7 + (weekday - 1) : Nat)
    if 1 ≤ year ∧ 1 ≤ day ∧ day ≤ lastDay then some (Date.ofDay day.toNat) else none
  else none

end Retrieval.Time
