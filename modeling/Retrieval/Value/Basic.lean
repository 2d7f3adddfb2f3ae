import Retrieval.Table
import Retrieval.Time.Moment

/-!
# Values

The values that configuration, metadata and requests are made of. Metadata proper holds scalars
only.
-/

namespace Retrieval

open Time

inductive Value
  | null
  | bool (b : Bool)
  | int (n : Int)
  | real (x : Float)
  | text (s : String)
  | moment (m : Moment)
  | bytes (content : List UInt8)
  | list (items : List Value)
  | map (entries : List (String × Value))
deriving Inhabited

abbrev Fields := Table Value

namespace Value

/-- The kinds of value that every store can keep. -/
def isScalar : Value → Bool
  | .bool _ | .int _ | .real _ | .text _ | .moment _ => true
  | _ => false

def isNull : Value → Bool
  | .null => true
  | _ => false

def text? : Value → Option String
  | .text s => some s
  | _ => none

def typeName : Value → String
  | .null => "NoneType"
  | .bool _ => "bool"
  | .int _ => "int"
  | .real _ => "float"
  | .text _ => "str"
  | .moment _ => "datetime"
  | .bytes _ => "bytes"
  | .list _ => "list"
  | .map _ => "dict"

def ofOption {α : Type} (f : α → Value) : Option α → Value
  | some a => f a
  | none => .null

/-- Whether a value counts as true: zero, empty and null do not. -/
def isTruthy : Value → Bool
  | .null => false
  | .bool b => b
  | .int n => n != 0
  | .real x => !(x == 0)
  | .text s => !s.isEmpty
  | .moment _ => true
  | .bytes content => !content.isEmpty
  | .list items => !items.isEmpty
  | .map entries => !entries.isEmpty

end Value

end Retrieval
