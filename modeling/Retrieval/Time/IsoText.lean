import Retrieval.Time.Moment

/-!
# Moments as text

A moment is written as date, time of day and offset, with seconds always, microseconds and the
seconds of an offset only when they are not zero. Reading is wider: dates with or without dashes,
week dates, any one character between date and time, times of two-digit fields with or without
colons, fractions cut to six digits, and offsets of the same form as times.
-/

namespace Retrieval.Time

open Number

namespace Clock

/-- Hours and minutes, then what is not zero of the rest; seconds are written if `always`. -/
def render (always : Bool) (c : Clock) : String :=
  padZeros 2 c.hour ++ ":" ++ padZeros 2 c.minute ++
    (if always || c.second ≠ 0 || c.micro ≠ 0 then ":" ++ padZeros 2 c.second else "") ++
    (if c.micro ≠ 0 then "." ++ padZeros 6 c.micro else "")

end Clock

def Date.render (d : Date) : String :=
  padZeros 4 d.year ++ "-" ++ padZeros 2 d.month ++ "-" ++ padZeros 2 d.day

def offsetText : Option Int → String
  | none => ""
  | some offset => (if offset < 0 then "-" else "+") ++ (Clock.ofMicros offset.natAbs).render false

def Moment.renderWith (separator : String) (m : Moment) : String :=
  m.date.render ++ separator ++ m.clock.render true ++ offsetText m.offset

def Moment.render (m : Moment) : String := m.renderWith "T"

/-- The bytes of a text, each as the character with that code: positions are counted in them. -/
def bytesOf (text : List Char) : List Char :=
  text.flatMap fun c => (String.utf8EncodeChar c).map fun b => Char.ofNat b.toNat

def digits? : (count : Nat) → (value : Nat) → List Char → Option (Nat × List Char)
  | 0, value, text => some (value, text)
  | count + 1, value, c :: text =>
      if c.isDigit then digits? count (10 * value + (c.toNat - 48)) text else none
  | _ + 1, _, [] => none

/-- Where the date ends, judged by the characters that tell its forms apart. -/
def dateLength (text : List Char) : Nat :=
  if text.length = 7 then 7
  else match text.drop 4 with
    | '-' :: 'W' :: _ =>
        if (text.drop 8).head? = some '-' ∧ ((text.drop 10).head?.any Char.isDigit) = false then 10
        else 8
    | '-' :: _ => 10
    | 'W' :: _ =>
        let stop := 7 + ((text.drop 7).takeWhile Char.isDigit).length
        if stop < 9 then stop else if stop % 2 = 0 then 7 else 8
    | _ => 8

def date? (length : Nat) (text : List Char) : Option Date := do
  let (year, text) ← digits? 4 0 text
  let dashed := text.head? == some '-'
  let text := if dashed then text.drop 1 else text
  match text with
  | 'W' :: text =>
      let (week, text) ← digits? 2 0 text
      if (if dashed then 8 else 7) < length then
        let text ← match dashed, text with
          | true, '-' :: text => some text
          | true, _ => none
          | false, text => some text
        let (weekday, _) ← digits? 1 0 text
        Date.ofWeek? year week weekday
      else Date.ofWeek? year week 1
  | text =>
      let (month, text) ← digits? 2 0 text
      let text ← match dashed, text with
        | true, '-' :: text => some text
        | true, _ => none
        | false, text => some text
      let (day, _) ← digits? 2 0 text
      let date : Date := ⟨year, month, day⟩
      if date.isValid then some date else none

/-- The text is over, which it also is at a NUL. -/
def isAtEnd (text : List Char) : Bool := text.head?.all (· == Char.ofNat 0)

/-- Up to `left` more fields of two digits, the whole reaching over `room` characters; then the
fraction. The flag tells that something stands behind the last field read. -/
def fields? : (left : Nat) → (colons : Option Bool) → (room : Nat) → List Char →
    Option (List Nat × Nat × Bool)
  | 0, _, room, text => fraction? room text
  | left + 1, colons, room, text => do
      let (value, text) ← digits? 2 0 text
      let mark := text.head?
      let colons := colons.getD (mark == some ':')
      if room ≤ 3 then some ([value], 0, !isAtEnd text)
      else
        let (values, rest) ←
          if colons && mark == some ':' then fields? left (some colons) (room - 3) (text.drop 1)
          else if mark == some '.' || mark == some ',' then fraction? (room - 3) (text.drop 1)
          else if colons then none
          else fields? left (some colons) (room - 2) text
        some (value :: values, rest)
where
  fraction? (room : Nat) (text : List Char) : Option (List Nat × Nat × Bool) := do
    let count := min 6 room
    let (value, text) ← digits? count 0 text
    let rest := text.dropWhile Char.isDigit
    some ([], value * Nat.pow 10 (6 - count), !isAtEnd rest)

/-- A time of day in the first `room` characters, not yet checked for its ranges. -/
def clock? (room : Nat) (text : List Char) : Option (Clock × Bool) := do
  let (values, micro, more) ← fields? 3 none room text
  some (⟨values.getD 0 0, values.getD 1 0, values.getD 2 0, micro⟩, more)

/-- An offset shorter than a day. One of no whole second counts as none. -/
def offset? (negative : Bool) (text : List Char) : Option Int := do
  let (c, more) ← clock? text.length text
  if more then none
  else
    let offset := if c.micros / microsPerSecond = 0 then 0 else c.micros
    if offset < microsPerDay then some (if negative then -offset else offset) else none

def timeOfDay? (text : List Char) : Option (Clock × Option Int) :=
  let isMark (c : Char) : Bool := c == '+' || c == '-' || c == 'Z'
  let room := (text.takeWhile fun c => !isMark c).length
  match clock? room text, text.drop room with
  | none, _ => none
  | some (c, more), [] => if more then none else some (c, none)
  | some (c, _), 'Z' :: rest => if isAtEnd rest then some (c, some 0) else none
  | some (c, _), sign :: rest => (offset? (sign == '-') rest).map fun offset => (c, some offset)

/-- The bytes of the character that opens the text, judged by its first byte. -/
def separatorLength (c : Char) : Nat :=
  if c.toNat < 128 then 1
  else if c.toNat / 16 = 14 then 3
  else if c.toNat / 16 = 15 then 4
  else 2

def Moment.ofIso? (text : List Char) : Option Moment := do
  let text := bytesOf text
  if text.length < 7 then none
  else
    let length := dateLength text
    let date ← date? length text
    match text.drop length with
    | [] => some (.ofDateClock date ⟨0, 0, 0, 0⟩ none)
    | separator :: rest =>
        let (clock, offset) ← timeOfDay? ((separator :: rest).drop (separatorLength separator))
        if clock.isValid then some (.ofDateClock date clock offset) else none

end Retrieval.Time
