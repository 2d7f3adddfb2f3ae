import Retrieval.Fault
import Retrieval.Time.Epoch
import Retrieval.Value.Print

/-!
# Timestamps in metadata

A timestamp is stored as a moment, as text in the form of dates and times, where a final Z stands
for universal time, or as seconds since 1970.
-/

namespace Retrieval

open Text Time

def Time.Moment.ofText? (text : List Char) : Option Moment :=
  let text := trim text
  match text.getLast? with
  | none => none
  | some 'Z' => Moment.ofIso? (text.dropLast ++ "+00:00".toList)
  | some _ => Moment.ofIso? text

/-- The text under which an instant is stored: universal time, as far as the calendar reaches. -/
def Time.Moment.stored (m : Moment) : Outcome String :=
  match m.toUniversal? with
  | some u => .ok u.render
  | none => .error (.overflow "date value out of range")

def notWhole (x : Float) : Fault :=
  if x.isNaN then .badValue "cannot convert float NaN to integer"
  else .overflow "cannot convert float infinity to integer"

def Value.toMicros : Value → Outcome Int
  | .int n => .ok (n * microsPerSecond)
  | .bool b => .ok (if b then microsPerSecond else 0)
  | .real x =>
      match Moment.microsOfSeconds? x with
      | some micros => .ok micros
      | none => .error (notWhole x)
  | value => .error (.badType ("unsupported type for timedelta seconds component: " ++
      value.typeName))

def mostDays : Nat := 999999999

/-- The same moment some seconds later, as far as spans and the calendar reach. -/
def Time.Moment.after (m : Moment) (seconds : Value) : Outcome Moment := do
  let micros ← seconds.toMicros
  let days := micros.fdiv microsPerDay
  if 2147483648 ≤ days ∨ days < -2147483648 then
    throw (.overflow "Python int too large to convert to C int")
  else if mostDays < days.natAbs then
    throw (.overflow ("days=" ++ toString days ++ "; must have magnitude <= " ++ toString mostDays))
  else if Moment.inCalendar (m.micros + micros) then return m.later micros
  else throw (.overflow "date value out of range")

/-- The moment a value names, universal time being assumed where no offset is given. -/
def Value.timestamp? (value : Value) : Option Moment :=
  (match value with
    | .moment m => some m
    | .int n => Moment.ofEpochSeconds? n
    | .real x => Moment.ofEpoch? x
    | .text s => Moment.ofText? s.toList
    | _ => none).map Moment.assumeUniversal

end Retrieval
