import Retrieval.Schema.Numeral
import Retrieval.Text.Utf8
import Retrieval.Value.Basic

/-!
# Reading values by schema

Readers turn values into typed data. They are lenient where a value leaves no doubt: whole numbers
may be given as truth values, as doubles without a fraction or as numerals, truth values as words,
and every text as the bytes of its UTF-8 form.
-/

namespace Retrieval.Schema

open Number Text

abbrev Reader (α : Type) := Value → Checked α

namespace Reader

variable {α β : Type}

/-- Bytes that are a text stand for it; every other value stays. -/
def spelled : Value → Value
  | .bytes content =>
      match Utf8.decode content with
      | .ok s => .text (String.ofList s)
      | .error _ => .bytes content
  | value => value

def text : Reader String := fun value =>
  match spelled value with
  | .text s => .good s
  | .bytes _ => .flaw .undecodableText
  | _ => .flaw .notText

/-- Doubles count as whole numbers up to the range of 64 bits. -/
def intReal (x : Float) : Checked Int :=
  match Binary.ofFloat? x with
  | none => .flaw .notFinite
  | some b =>
      if !b.isWhole then .flaw .fractional
      else if Nat.pow 2 63 ≤ b.truncate.natAbs then .flaw .oversizedInt
      else .good b.truncate

def int : Reader Int := fun value =>
  match spelled value with
  | .int n => .good n
  | .bool b => .good (if b then 1 else 0)
  | .real x => intReal x
  | .text s => Numeral.int s.toList
  | .bytes _ => .flaw .unreadableInt
  | _ => .flaw .notInt

def atLeast (bound : Int) : Reader Int := fun value =>
  (int value).andThen fun n => if bound ≤ n then .good n else .flaw (.below bound)

def above (bound : Int) : Reader Int := fun value =>
  (int value).andThen fun n => if bound < n then .good n else .flaw (.notAbove bound)

def nat : Reader Nat := fun value => (atLeast 0 value).map Int.toNat

def realInt (n : Int) : Checked Float :=
  let x := Float.ofInt n
  if x.isInf then .flaw .notReal else .good x

def real : Reader Float := fun value =>
  match spelled value with
  | .real x => .good x
  | .int n => realInt n
  | .bool b => .good (if b then 1 else 0)
  | .text s => Numeral.real s.toList
  | .bytes _ => .flaw .unreadableReal
  | _ => .flaw .notReal

def trueWords : List String := ["1", "on", "t", "true", "y", "yes"]

def falseWords : List String := ["0", "off", "f", "false", "n", "no"]

def isWord (n : Int) : Bool := -9223372036854775808 ≤ n && n < 9223372036854775808

def boolInt (n : Int) : Checked Bool :=
  if n = 0 then .good false
  else if n = 1 then .good true
  else .flaw (if isWord n then .unreadableBool else .notBool)

def bool : Reader Bool := fun value =>
  match spelled value with
  | .bool b => .good b
  | .int n => boolInt n
  | .real x =>
      match intReal x with
      | .good n => boolInt n
      | .bad _ => .flaw .notBool
  | .text s =>
      let word := lower s
      if trueWords.contains word then .good true
      else if falseWords.contains word then .good false
      else .flaw .unreadableBool
  | .bytes _ => .flaw .unreadableBool
  | _ => .flaw .notBool

def bytes : Reader (List UInt8)
  | .bytes content => .good content
  | .text s => .good (s.toList.flatMap String.utf8EncodeChar)
  | _ => .flaw .notBytes

def optional (read : Reader α) : Reader (Option α)
  | .null => .good none
  | value => (read value).map some

def list (read : Reader α) : Reader (List α)
  | .list items => Checked.list read 0 items
  | _ => .flaw .notList

def choice (options : List (String × α)) : Reader α := fun value =>
  match spelled value with
  | .text s =>
      match options.lookup s with
      | some a => .good a
      | none => .flaw (.notOneOf (options.map (·.1)))
  | _ => .flaw (.notOneOf (options.map (·.1)))

def entries (read : Reader α) : Fields → Checked (List (String × α))
  | [] => .good []
  | (name, value) :: rest =>
      Checked.ap (((read value).under (.field name)).map fun a => ((name, a) :: ·))
        (entries read rest)

def map (read : Reader α) : Reader (List (String × α))
  | .map fields => entries read fields
  | _ => .flaw .notMap

/-- What is said about a metadata value that fits none of the five types. -/
def scalarIssues (flaws : List Flaw) : List Issue :=
  List.zipWith (fun type flaw => ⟨[.field type], flaw⟩) ["str", "int", "float", "bool", "datetime"]
    flaws

def scalar : Reader Value := fun value =>
  match spelled value with
  | .bytes _ => .bad (scalarIssues
      [.undecodableText, .unreadableInt, .unreadableReal, .unreadableBool, .unreadableMoment])
  | value =>
      if value.isScalar then .good value
      else .bad (scalarIssues [.notText, .notInt, .notReal, .notBool, .notMoment])

def metadata : Reader Fields := map scalar

def record (name : String) (read : Fields → Checked α) : Reader α
  | .map fields => read fields
  | _ => .flaw (.notRecord name)

end Reader

def required {α : Type} (name : String) (read : Reader α) (fields : Fields) : Checked α :=
  (match fields.get? name with
    | some value => read value
    | none => .flaw .missing).under (.field name)

def optionalField {α : Type} (name : String) (default : α) (read : Reader α) (fields : Fields) :
    Checked α :=
  match fields.get? name with
  | some value => (read value).under (.field name)
  | none => .good default

end Retrieval.Schema
