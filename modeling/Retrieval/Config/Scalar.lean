import Retrieval.Number.Numeral
import Retrieval.Value.Basic

/-!
# Plain scalars

A scalar written without quotes is what it looks like: nothing, a truth value in one of its three
spellings, a whole number to base two, eight, ten or sixteen, or a number with a point. Digits may
be grouped by underscores. Whatever looks like none of these is a text.
-/

namespace Retrieval.Config.Scalar

open Number

def nullWords : List String := ["", "~", "null", "Null", "NULL"]

def trueWords : List String :=
  ["yes", "Yes", "YES", "true", "True", "TRUE", "on", "On", "ON"]

def falseWords : List String :=
  ["no", "No", "NO", "false", "False", "FALSE", "off", "Off", "OFF"]

def infiniteWords : List String := [".inf", ".Inf", ".INF"]

def undefinedWords : List String := [".nan", ".NaN", ".NAN"]

/-- Words that stand for something else than themselves, and for nothing outside a map. -/
def reservedWords : List String := ["=", "<<"]

def digitValue (c : Char) : Nat :=
  if c.isDigit then c.toNat - 48 else if c.isUpper then c.toNat - 55 else c.toNat - 87

def isDigitOf (base : Nat) (c : Char) : Bool := c.isAlphanum && digitValue c < base

/-- Digits to a base with underscores between, before or behind them. -/
def inBase? (base : Nat) (text : List Char) : Option Nat :=
  let digits := text.filter (· != '_')
  if digits.isEmpty || !digits.all (isDigitOf base) then none
  else some (digits.foldl (fun n c => base * n + digitValue c) 0)

def nat? : List Char → Option Nat
  | ['0'] => some 0
  | '0' :: 'b' :: rest => inBase? 2 rest
  | '0' :: 'x' :: rest => inBase? 16 rest
  | '0' :: rest => if rest.all (· == '_') then some 0 else inBase? 8 rest
  | '_' :: _ => none
  | text => inBase? 10 text

/-- An exponent has a sign. -/
def isExponent : List Char → Bool
  | [] => true
  | mark :: sign :: digits =>
      (mark == 'e' || mark == 'E') && (sign == '+' || sign == '-') && !digits.isEmpty &&
        digits.all Char.isDigit
  | _ => false

/-- A number with a point and at least one digit beside it, the first of them no underscore. -/
def pointReal? (text : List Char) : Option Float :=
  let isPlace (c : Char) : Bool := c.isDigit || c == '_'
  match text.dropWhile isPlace with
  | '.' :: rest =>
      let first := (text.takeWhile isPlace ++ rest).head?
      if first.any Char.isDigit && isExponent (rest.dropWhile isPlace) then
        Number.unsignedReal? (text.filter (· != '_'))
      else none
  | _ => none

def int? (text : List Char) : Option Int :=
  let (negative, body) := signed text
  (nat? body).map fun n => if negative then -n else n

/-- A number that starts with its point has no sign. -/
def real? (text : List Char) : Option Float :=
  let (negative, body) := signed text
  let size :=
    if infiniteWords.contains (String.ofList body) then some (1 / 0)
    else if body.head? = some '.' ∧ body.length < text.length then none
    else pointReal? body
  size.map fun x => if negative then -x else x

def decimalDigits (text : List Char) : Nat :=
  match (signed text).2 with
  | '0' :: _ | '_' :: _ => 0
  | body => if (inBase? 10 body).isSome then body.countP (· != '_') else 0

/-- The value of a scalar; a reserved word has none. -/
def resolve? (text : List Char) : Option Value :=
  let word := String.ofList text
  if nullWords.contains word then some .null
  else if trueWords.contains word then some (.bool true)
  else if falseWords.contains word then some (.bool false)
  else if undefinedWords.contains word then some (.real (0 / 0))
  else if reservedWords.contains word then none
  else some (((int? text).map .int).or ((real? text).map .real) |>.getD (.text word))

end Retrieval.Config.Scalar
