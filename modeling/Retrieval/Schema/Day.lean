import Retrieval.Schema.Reader
import Retrieval.Time.IsoText

/-!
# Days in fields

A field for a day takes a date, or whatever names a moment at the beginning of a day: a date with a
time of day and perhaps an offset, or a count of seconds since 1970. A count whose size is beyond
any date in seconds is one of thousandths.
-/

namespace Retrieval.Schema.Day

open Number Text Time

/-- Counts of seconds reach from the year 1600 to the end of the calendar. -/
def leastSecond : Int := -11676096000
def lastSecond : Int := 253402300799

def mostSeconds : Nat := 20000000000

def secondsOf (count : Int) : Int × Int :=
  if count.natAbs ≤ mostSeconds then (count, 0)
  else (count.fdiv 1000, count.fmod 1000 * 1000)

def ofMicros (micros : Int) : Checked Nat :=
  let seconds := micros.fdiv microsPerSecond
  if seconds < leastSecond ∨ lastSecond < seconds then .flaw .unreadableDate
  else
    let m := Moment.epoch.later micros
    if m.micros % microsPerDay = 0 then .good m.day else .flaw .inexactDate

def ofCount (count : Int) : Checked Nat :=
  let (seconds, micros) := secondsOf count
  ofMicros (seconds * microsPerSecond + micros)

/-- The size of the fraction is put on the whole part below the number, to the microsecond. -/
def ofReal (x : Float) : Checked Nat :=
  match Binary.ofFloat? x with
  | none => .flaw .unreadableDate
  | some b =>
      let (seconds, micros) := secondsOf b.value.floor
      let fraction := (x - Float.ofInt b.truncate).abs * 1000000
      let more := ((Binary.ofFloat? fraction.round).map Binary.truncate).getD 0
      ofMicros (seconds * microsPerSecond + micros + more)

def ofInt (n : Int) : Checked Nat :=
  if Reader.isWord n then ofCount n
  else if (Float.ofInt n).isInf then .flaw .notDate
  else .flaw .unreadableDate

def ofMoment (m : Moment) : Checked Nat :=
  if m.micros % microsPerDay = 0 then .good m.day else .flaw .inexactDate

/-- A date of ten characters that opens a text; the year may be zero. -/
def date? (text : List Char) : Option (Date × List Char) := do
  let (year, text) ← digits? 4 0 text
  let ('-' :: text) := text | none
  let (month, text) ← digits? 2 0 text
  let ('-' :: text) := text | none
  let (day, text) ← digits? 2 0 text
  if 1 ≤ month ∧ month ≤ 12 ∧ 1 ≤ day ∧ day ≤ monthLength year month then
    some (⟨year, month, day⟩, text)
  else none

/-- The fraction of a second in microseconds; further digits are dropped. -/
def fraction? : List Char → Option (Nat × List Char)
  | [] => some (0, [])
  | c :: rest =>
      if c == '.' || c == ',' then
        let places := rest.takeWhile Char.isDigit
        if places.isEmpty then none
        else some (digitsValue ((places ++ List.replicate 6 '0').take 6),
          rest.dropWhile Char.isDigit)
      else some (0, c :: rest)

def clock? (text : List Char) : Option (Clock × List Char) := do
  let (hour, text) ← digits? 2 0 text
  let (':' :: text) := text | none
  let (minute, text) ← digits? 2 0 text
  let (clock, text) ← match text with
    | ':' :: text => do
        let (second, text) ← digits? 2 0 text
        let (micro, text) ← fraction? text
        some (Clock.mk hour minute second micro, text)
    | text => some (Clock.mk hour minute 0 0, text)
  if clock.isValid then some (clock, text) else none

def isOffset : List Char → Bool
  | [] => true
  | [mark] => mark == 'Z' || mark == 'z'
  | sign :: rest =>
      (sign == '+' || sign == '-' || sign == '\u2212') &&
        match digits? 2 0 rest with
        | none => false
        | some (hour, rest) =>
            match digits? 2 0 (if rest.head? = some ':' then rest.drop 1 else rest) with
            | some (minute, []) => hour < 24 && minute < 60
            | _ => false

/-- There is no year zero. -/
def ofDate (d : Date) : Checked Nat := if d.year = 0 then .flaw .noSuchDate else .good d.toDay

def ofDateTime? (d : Date) (text : List Char) : Option (Checked Nat) := do
  let separator :: text := text | none
  let (clock, text) ← clock? text
  if ['T', 't', ' ', '_'].contains separator ∧ isOffset text = true then
    some (if clock.micros = 0 then ofDate d else .flaw .inexactDate)
  else none

/-- The day of a count of seconds. A whole count of thousandths is cut to seconds. -/
def ofNumeral? (text : List Char) : Option (Checked Nat) := do
  let (negative, body) := signed text
  let whole := body.takeWhile Char.isDigit
  let n : Int := if negative then -(digitsValue whole : Int) else digitsValue whole
  if whole.isEmpty ∨ Reader.isWord n = false then none
  else match body.dropWhile Char.isDigit with
    | [] => some (ofMicros ((secondsOf n).1 * microsPerSecond))
    | '.' :: places =>
        if places.all Char.isDigit then
          (unsignedReal? body).map fun x => ofReal (if negative then -x else x)
        else none
    | _ => none

def ofText (text : List Char) : Checked Nat :=
  (match date? text with
    | some (d, []) => some (ofDate d)
    | some (d, rest) => ofDateTime? d rest
    | none => ofNumeral? text).getD (.flaw .unreadableDate)

def read : Reader Nat := fun value =>
  match Reader.spelled value with
  | .text s => ofText s.toList
  | .bytes _ => .flaw .unreadableDate
  | .int n => ofInt n
  | .real x => ofReal x
  | .moment m => ofMoment m
  | _ => .flaw .notDate

end Retrieval.Schema.Day
