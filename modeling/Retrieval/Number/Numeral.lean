import Retrieval.Number.Shortest
import Retrieval.Text.Digit

/-!
# Reading numerals

A numeral may stand between blanks, carry a sign, use the decimal digits of any script, and group
its digits by single underscores. A whole number has at most 4300 digits. A real number has digits
with a point somewhere among or around them and an exponent, or is a name of infinity or of the
undefined number.
-/

namespace Retrieval.Number

open Text

def isNumeralBlank (c : Char) : Bool := c == ' ' || ('\t' ≤ c && c ≤ '\r')

def trimNumeral (text : List Char) : List Char :=
  ((text.dropWhile isNumeralBlank).reverse.dropWhile isNumeralBlank).reverse

/-- Removes underscores between two digits; one that stands elsewhere spoils the numeral. -/
def joinDigits? : List Char → Option (List Char)
  | [] => some []
  | '_' :: _ => none
  | c :: '_' :: d :: rest =>
      if c.isDigit && d.isDigit then (joinDigits? (d :: rest)).map (c :: ·) else none
  | c :: rest => (joinDigits? rest).map (c :: ·)

def digitsValue (digits : List Char) : Nat :=
  digits.foldl (fun n c => 10 * n + (c.toNat - 48)) 0

/-- Splits a sign off; `true` stands for minus. -/
def signed : List Char → Bool × List Char
  | '-' :: rest => (true, rest)
  | '+' :: rest => (false, rest)
  | text => (false, text)

def mostDigits : Nat := 4300

def int? (text : List Char) : Option Int :=
  let (negative, body) := signed (trimNumeral (plainNumeral text))
  match joinDigits? body with
  | none => none
  | some digits =>
      if digits.isEmpty || !digits.all Char.isDigit || mostDigits < digits.length then none
      else some (if negative then -(digitsValue digits : Int) else digitsValue digits)

/-- `coefficient · 10 ^ exponent` as the nearest double. -/
def Decimal.toFloat (d : Decimal) : Float :=
  let point := (decimalLength d.coefficient : Int) + d.exponent
  if d.coefficient = 0 ∨ point < -400 then 0
  else if 400 < point then 1 / 0
  else Float.ofScientific d.coefficient (d.exponent < 0) d.exponent.natAbs

/-- The exponent behind the digits, zero if nothing follows. -/
def exponent? : List Char → Option Int
  | [] => some 0
  | mark :: rest =>
      let (negative, digits) := signed rest
      if (mark == 'e' || mark == 'E') && !digits.isEmpty && digits.all Char.isDigit then
        some (if negative then -(digitsValue digits : Int) else digitsValue digits)
      else none

def decimal? (text : List Char) : Option Decimal :=
  let whole := text.takeWhile Char.isDigit
  let rest := text.dropWhile Char.isDigit
  let (places, rest) :=
    match rest with
    | '.' :: rest => (rest.takeWhile Char.isDigit, rest.dropWhile Char.isDigit)
    | _ => ([], rest)
  if whole.isEmpty && places.isEmpty then none
  else (exponent? rest).map fun e => ⟨digitsValue (whole ++ places), e - places.length⟩

def unsignedReal? (text : List Char) : Option Float :=
  match String.ofList (text.map Char.toLower) with
  | "inf" | "infinity" => some (1 / 0)
  | "nan" => some (0 / 0)
  | _ => (decimal? text).map Decimal.toFloat

def real? (text : List Char) : Option Float :=
  match joinDigits? (trimNumeral (plainNumeral text)) with
  | none => none
  | some body =>
      let (negative, digits) := signed body
      (unsignedReal? digits).map fun x => if negative then -x else x

end Retrieval.Number
