import Retrieval.Fault
import Retrieval.Number.Numeral
import Retrieval.Value.Timestamp

/-!
# Well-known metadata

The names under which the library keeps what it knows about a chunk, and access to them. A record
always says which tenant, document, version and chunk it belongs to under these names.
-/

namespace Retrieval

open Time

def given (text : Option String) : Option String := text.filter (!·.isEmpty)

namespace Key

def text : String := "text"
def sourceUri : String := "sourceUri"
def docId : String := "docId"
def chunkId : String := "chunkId"
def tenantId : String := "tenantId"
def versionId : String := "versionId"
def createdAt : String := "createdAt"
def indexedAt : String := "indexedAt"
def mimeType : String := "mimeType"
def title : String := "title"
def heading : String := "heading"
def chunkIndex : String := "chunkIndex"
def strategy : String := "strategy"
def startIndex : String := "startIndex"
def endIndex : String := "endIndex"

end Key

namespace Fields

/-- The display form of a value that is there and not null. -/
def display? (fields : Fields) (key : String) : Option String :=
  match fields.get? key with
  | none | some .null => none
  | some value => some value.display

/-- Nothing illegible stands under a name. -/
def isLegible (fields : Fields) (key : String) : Bool := (fields.get? key).all Value.isLegible

/-- The text of a value that is there and not null, where it has one. -/
def text? (fields : Fields) (key : String) : Outcome (Option String) :=
  if fields.isLegible key then .ok (fields.display? key) else .error Value.tooLong

/-- A name that is given and not empty, or else the text that metadata has under a key. -/
def reference (fields : Fields) (name : Option String) (key : String) : Outcome (Option String) :=
  match given name with
  | some name => .ok (some name)
  | none => fields.text? key

theorem text?_of_isLegible {fields : Fields} {key : String} (h : fields.isLegible key = true) :
    fields.text? key = .ok (fields.display? key) := if_pos h

def createdAt? (fields : Fields) : Option Moment :=
  (fields.get? Key.createdAt).bind Value.timestamp?

end Fields

/-- A value as a double, for which it is a number or the numeral of one. -/
def Value.toReal : Value → Outcome Float
  | .real x => .ok x
  | .bool b => .ok (if b then 1 else 0)
  | .int n =>
      let x := Float.ofInt n
      if x.isInf then .error (.overflow "int too large to convert to float") else .ok x
  | .text s =>
      match Number.real? s.toList with
      | some x => .ok x
      | none => .error (.badValue ("could not convert string to float: " ++ Text.quote s))
  | value => .error (.badType ("float() argument must be a string or a real number, not '" ++
      value.typeName ++ "'"))

/-- A value as a whole number. Doubles lose their fraction; a double that is not finite cannot be
converted; truth values and texts that are no numerals are no numbers. -/
def Value.toInt? : Value → Outcome (Option Int)
  | .null | .bool _ => .ok none
  | .int n => .ok (some n)
  | .real x =>
      match Number.Binary.ofFloat? x with
      | some b => .ok (some b.truncate)
      | none => .error (notWhole x)
  | value => .ok (Number.int? value.display.toList)

def Fields.int? (fields : Fields) (key : String) : Outcome (Option Int) :=
  match fields.get? key with
  | none => .ok none
  | some value => value.toInt?

end Retrieval
