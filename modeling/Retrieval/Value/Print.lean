import Retrieval.Fault
import Retrieval.Number.Numeral
import Retrieval.Number.RealText
import Retrieval.Time.IsoText
import Retrieval.Value.Basic

/-!
# The text of a value

A value has a literal, in which texts stand in quotes, and a display form, which for a text is the
text itself and for a moment its date and time. Inside lists and maps values stand as literals.
Whole numbers of more than 4300 digits are not put into text: a value that is or holds one is
illegible, and asking for its text fails.
-/

namespace Retrieval

open Number Text Time

/-- A span of time as days, seconds and microseconds, of which only days can be negative. -/
def durationLiteral (micros : Int) : String :=
  let days := micros / microsPerDay
  let seconds := micros % microsPerDay / microsPerSecond
  let rest := micros % microsPerSecond
  let parts := [("days", days), ("seconds", seconds), ("microseconds", rest)].filterMap
    fun (name, n) => if n = 0 then none else some (name ++ "=" ++ toString n)
  "datetime.timedelta(" ++ (if parts.isEmpty then "0" else ", ".intercalate parts) ++ ")"

def zoneLiteral (zone : Zone) : String :=
  match zone.region with
  | some region => "zoneinfo.ZoneInfo(key=" ++ quote region.name ++ ")"
  | none =>
      if zone.offset = 0 then "datetime.timezone.utc"
      else "datetime.timezone(" ++ durationLiteral zone.offset ++ ")"

/-- Seconds and microseconds are left out from the end while they are zero. A second reading is
told. -/
def Time.Moment.literal (m : Moment) : String :=
  let date := m.date
  let clock := m.clock
  let least := [date.year, date.month, date.day, clock.hour, clock.minute]
  let numbers :=
    if clock.micro ≠ 0 then least ++ [clock.second, clock.micro]
    else if clock.second ≠ 0 then least ++ [clock.second]
    else least
  let zone := match m.zone with
    | none => []
    | some zone => (if zone.region.any (·.fold) then ["fold=1"] else []) ++
        ["tzinfo=" ++ zoneLiteral zone]
  "datetime.datetime(" ++ ", ".intercalate (numbers.map toString ++ zone) ++ ")"

def byteEscaped (mark : Char) (b : UInt8) : List Char :=
  let c := Char.ofNat b.toNat
  if c == mark || c == '\\' then ['\\', c]
  else if c == '\n' then ['\\', 'n']
  else if c == '\r' then ['\\', 'r']
  else if c == '\t' then ['\\', 't']
  else if 32 ≤ b.toNat && b.toNat < 127 then [c]
  else '\\' :: 'x' :: hexDigits 2 b.toNat

def bytesLiteral (content : List UInt8) : String :=
  let mark := quoteMark (content.map fun b => Char.ofNat b.toNat)
  String.ofList ('b' :: mark :: (content.flatMap (byteEscaped mark) ++ [mark]))

namespace Value

def boolText (b : Bool) : String := if b then "True" else "False"

mutual

def literal : Value → String
  | .null => "None"
  | .bool b => boolText b
  | .int n => toString n
  | .real x => realText x
  | .text s => quote s
  | .moment m => m.literal
  | .bytes content => bytesLiteral content
  | .list items => "[" ++ ", ".intercalate (literals items) ++ "]"
  | .map entries => "\x7b" ++ ", ".intercalate (entryLiterals entries) ++ "\x7d"

def literals : List Value → List String
  | [] => []
  | item :: rest => item.literal :: literals rest

def entryLiterals : List (String × Value) → List String
  | [] => []
  | (name, value) :: rest => (quote name ++ ": " ++ value.literal) :: entryLiterals rest

end

def display : Value → String
  | .text s => s
  | .moment m => m.renderWith " "
  | value => value.literal

@[simp] theorem display_text (s : String) : (Value.text s).display = s := rfl

mutual

def isLegible : Value → Bool
  | .int n => decimalLength n.natAbs ≤ mostDigits
  | .list items => areLegible items
  | .map entries => areEntriesLegible entries
  | _ => true

def areLegible : List Value → Bool
  | [] => true
  | item :: rest => item.isLegible && areLegible rest

def areEntriesLegible : List (String × Value) → Bool
  | [] => true
  | (_, value) :: rest => value.isLegible && areEntriesLegible rest

end

@[simp] theorem isLegible_text (s : String) : (Value.text s).isLegible = true := rfl

def tooLong : Fault :=
  .badValue ("Exceeds the limit (" ++ toString mostDigits ++
    " digits) for integer string conversion; use sys.set_int_max_str_digits() to increase the limit")

def toText (value : Value) : Outcome String :=
  if value.isLegible then .ok value.display else .error tooLong

def toLiteral (value : Value) : Outcome String :=
  if value.isLegible then .ok value.literal else .error tooLong

theorem toText_cases (value : Value) : (value.toText = .ok value.display ∧ value.isLegible = true) ∨
    (value.toText = .error tooLong ∧ value.isLegible = false) := by
  unfold toText
  cases value.isLegible <;> simp

theorem toLiteral_cases (value : Value) :
    (value.toLiteral = .ok value.literal ∧ value.isLegible = true) ∨
      (value.toLiteral = .error tooLong ∧ value.isLegible = false) := by
  unfold toLiteral
  cases value.isLegible <;> simp

@[simp] theorem toText_text (s : String) : (Value.text s).toText = .ok s := rfl

end Value

end Retrieval
