import Retrieval.Number.Numeral
import Retrieval.Schema.Checked
import Retrieval.Text.Search

/-!
# Numerals in fields

A field for a number also takes a numeral. Spaces around it, one sign and single underscores inside
it are allowed, and zeros may lead a whole numeral and follow it behind a point. A whole numeral has
at most 4300 digits, of which leading zeros do not count.
-/

namespace Retrieval.Schema.Numeral

open Number Text

/-- Blanks around a numeral, which exclude the separator controls. -/
def isSpace (c : Char) : Bool := isBlank c && !(28 ≤ c.toNat && c.toNat ≤ 31)

def trimSpaces (text : List Char) : List Char :=
  ((text.dropWhile isSpace).reverse.dropWhile isSpace).reverse

def ungroup? (text : List Char) : Option (List Char) :=
  if text.head? = some '_' ∨ text.getLast? = some '_' ∨ occursIn ['_', '_'] text = true then none
  else some (text.filter (· != '_'))

/-- What follows the zeros and underscores behind a leading zero. The last of them stays if nothing
else or only places follow. -/
def behindZeros? (last : Char) : List Char → Option (List Char)
  | [] => some [last]
  | c :: rest =>
      if c == '0' || c == '_' then behindZeros? c rest
      else if c == '.' then some (last :: c :: rest)
      else if c.isDigit || c == '-' then some (c :: rest)
      else none

def withoutLeadingZeros? : List Char → Option (List Char)
  | [] => none
  | c :: rest =>
      if c == '0' then behindZeros? c rest
      else if c.isDigit || c == '-' then some (c :: rest)
      else none

/-- A whole numeral may have places, all of them zeros. -/
def withoutZeroPlaces? (text : List Char) : Option (List Char) :=
  match cutAt '.' text with
  | some (whole, places) =>
      if !places.isEmpty && places.all (· == '0') then some whole else none
  | none => some text

/-- Digits without a leading zero and perhaps a minus, which counts as one of the characters a
numeral may have. -/
def plainInt (text : List Char) : Checked Int :=
  let negative := text.head? == some '-'
  let body := if negative then text.drop 1 else text
  let digits := body.takeWhile Char.isDigit
  let size := digits.length + if negative then 1 else 0
  if digits.isEmpty then .flaw .unreadableInt
  else if digits.head? = some '0' then
    if body.length = 1 then .good 0 else .flaw .unreadableInt
  else if mostDigits < size then .flaw .oversizedInt
  else if digits.length < body.length then .flaw .unreadableInt
  else .good (if negative then -(digitsValue digits : Int) else digitsValue digits)

def wholeDigits? (text : List Char) : Option (List Char) := do
  let (negative, body) := signed text
  if text.head? = some '+' ∧ body.head? = some '-' then none
  else
    let digits ← ungroup? (← withoutZeroPlaces? (← withoutLeadingZeros? body))
    some (if negative then '-' :: digits else digits)

def int (text : List Char) : Checked Int :=
  match wholeDigits? (trimSpaces text) with
  | some digits => plainInt digits
  | none => .flaw .unreadableInt

def plainReal? (text : List Char) : Option Float :=
  let (negative, digits) := signed text
  (unsignedReal? digits).map fun x => if negative then -x else x

/-- The real number a field's numeral stands for. It has either spaces around it or underscores in
it. -/
def real (text : List Char) : Checked Float :=
  match (plainReal? (trimSpaces text)).or ((ungroup? text).bind plainReal?) with
  | some x => .good x
  | none => .flaw .unreadableReal

end Retrieval.Schema.Numeral
