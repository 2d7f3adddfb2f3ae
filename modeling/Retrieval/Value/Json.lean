import Retrieval.Number.Numeral
import Retrieval.Text.Quoted
import Retrieval.Time.IsoText
import Retrieval.Value.Basic

/-!
# Values as JSON text

Requests and answers are written as JSON. In reading, names keep the order of the text, and a name
given twice keeps its first place and its last value. A number with a point or an exponent is real,
every other one is whole.
-/

namespace Retrieval.Json

open Number

def isSpace (c : Char) : Bool := c == ' ' || c == '\n' || c == '\t' || c == '\r'

def skipSpaces (text : List Char) : List Char := text.dropWhile isSpace

def hexValue? (c : Char) : Option Nat :=
  if c.isDigit then some (c.toNat - 48)
  else if 'a' ≤ c && c ≤ 'f' then some (c.toNat - 87)
  else if 'A' ≤ c && c ≤ 'F' then some (c.toNat - 55)
  else none

def escapeValue? : Char → Option Nat
  | '"' => some 34
  | '\\' => some 92
  | '/' => some 47
  | 'b' => some 8
  | 'f' => some 12
  | 'n' => some 10
  | 'r' => some 13
  | 't' => some 9
  | _ => none

/-- The code units of a string up to its closing mark, and what follows it. -/
def units? : List Char → Option (List Nat × List Char)
  | [] => none
  | '"' :: rest => some ([], rest)
  | '\\' :: 'u' :: a :: b :: c :: d :: rest => do
      let a ← hexValue? a
      let b ← hexValue? b
      let c ← hexValue? c
      let d ← hexValue? d
      let (units, rest) ← units? rest
      some ((((a * 16 + b) * 16 + c) * 16 + d) :: units, rest)
  | '\\' :: c :: rest => do
      let code ← escapeValue? c
      let (units, rest) ← units? rest
      some (code :: units, rest)
  | c :: rest => do
      let (units, rest) ← units? rest
      some (c.toNat :: units, rest)

/-- Joins surrogate pairs; a surrogate alone stands for nothing. -/
def charsOf : List Nat → List Char
  | [] => []
  | [unit] => [Char.ofNat unit]
  | high :: low :: rest =>
      if 0xD800 ≤ high && high < 0xDC00 && 0xDC00 ≤ low && low < 0xE000 then
        Char.ofNat (0x10000 + (high - 0xD800) * 0x400 + (low - 0xDC00)) :: charsOf rest
      else Char.ofNat high :: charsOf (low :: rest)

def string? (text : List Char) : Option (String × List Char) :=
  (units? text).map fun (units, rest) => (String.ofList (charsOf units), rest)

def isNumberChar (c : Char) : Bool :=
  c.isDigit || c == '-' || c == '+' || c == '.' || c == 'e' || c == 'E'

def number? (run : List Char) : Option Value :=
  let (negative, body) := signed run
  if !body.isEmpty && body.all Char.isDigit then
    some (.int (if negative then -(digitsValue body : Int) else digitsValue body))
  else (unsignedReal? body).map fun x => .real (if negative then -x else x)

def word? : List Char → Option (Value × List Char)
  | 't' :: 'r' :: 'u' :: 'e' :: rest => some (.bool true, rest)
  | 'f' :: 'a' :: 'l' :: 's' :: 'e' :: rest => some (.bool false, rest)
  | 'n' :: 'u' :: 'l' :: 'l' :: rest => some (.null, rest)
  | text =>
      (number? (text.takeWhile isNumberChar)).map fun value => (value, text.dropWhile isNumberChar)

/-! The readers of nested values take fuel; each of their steps consumes a character, so a text's
length is enough. -/

mutual

def value? : (fuel : Nat) → List Char → Option (Value × List Char)
  | 0, _ => none
  | fuel + 1, text =>
      match skipSpaces text with
      | '"' :: rest => (string? rest).map fun (s, rest) => (.text s, rest)
      | '[' :: rest =>
          match skipSpaces rest with
          | ']' :: rest => some (.list [], rest)
          | rest => (items? fuel rest).map fun (items, rest) => (.list items, rest)
      | '\x7b' :: rest =>
          match skipSpaces rest with
          | '\x7d' :: rest => some (.map [], rest)
          | rest => (entries? fuel [] rest).map fun (entries, rest) => (.map entries, rest)
      | rest => word? rest

def items? : (fuel : Nat) → List Char → Option (List Value × List Char)
  | 0, _ => none
  | fuel + 1, text =>
      match value? fuel text with
      | none => none
      | some (item, rest) =>
          match skipSpaces rest with
          | ',' :: rest => (items? fuel rest).map fun (items, rest) => (item :: items, rest)
          | ']' :: rest => some ([item], rest)
          | _ => none

def entries? : (fuel : Nat) → Fields → List Char → Option (Fields × List Char)
  | 0, _, _ => none
  | fuel + 1, fields, text =>
      match skipSpaces text with
      | '"' :: rest =>
          match string? rest with
          | none => none
          | some (name, rest) =>
              match skipSpaces rest with
              | ':' :: rest =>
                  match value? fuel rest with
                  | none => none
                  | some (value, rest) =>
                      match skipSpaces rest with
                      | ',' :: rest => entries? fuel (fields.set name value) rest
                      | '\x7d' :: rest => some (fields.set name value, rest)
                      | _ => none
              | _ => none
      | _ => none

end

def ofText? (text : List Char) : Option Value :=
  match value? (2 * text.length + 1) text with
  | some (value, rest) => if (skipSpaces rest).isEmpty then some value else none
  | none => none

def escapedChar (c : Char) : List Char :=
  if c == '"' || c == '\\' then ['\\', c]
  else if c == '\n' then ['\\', 'n']
  else if c.toNat < 32 then '\\' :: 'u' :: Text.hexDigits 4 c.toNat
  else [c]

def stringText (s : String) : String :=
  String.ofList ('"' :: (s.toList.flatMap escapedChar ++ ['"']))

mutual

/-- The JSON text of a value. Moments are written as texts and bytes as lists of numbers. -/
def render : Value → String
  | .null => "null"
  | .bool b => if b then "true" else "false"
  | .int n => toString n
  | .real x => Number.realText x
  | .text s => stringText s
  | .moment m => stringText m.render
  | .bytes content => "[" ++ ",".intercalate (content.map fun b => toString b.toNat) ++ "]"
  | .list items => "[" ++ ",".intercalate (renderItems items) ++ "]"
  | .map entries => "\x7b" ++ ",".intercalate (renderEntries entries) ++ "\x7d"

def renderItems : List Value → List String
  | [] => []
  | item :: rest => render item :: renderItems rest

def renderEntries : List (String × Value) → List String
  | [] => []
  | (name, value) :: rest => (stringText name ++ ":" ++ render value) :: renderEntries rest

end

end Retrieval.Json
