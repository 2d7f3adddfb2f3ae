import Retrieval.Number.Numeral
import Retrieval.Text.Base64
import Retrieval.Time.IsoText
import Retrieval.Value.Basic

/-!
# Values in JSON without loss

JSON has no moments and no bytes, and its numbers lose what a double can be. Such a value is written
as a map with a single entry that is named after its kind.
-/

namespace Retrieval.Value

open Time

def realTag : String := "$float"
def momentTag : String := "$dt"
def bytesTag : String := "$b64"

def ofTag? (kind s : String) : Option Value :=
  if kind == realTag then (Number.real? s.toList).map .real
  else if kind == momentTag then (Moment.ofIso? s.toList).map .moment
  else if kind == bytesTag then some (.bytes (Text.Base64.decode s.toList))
  else none

mutual

def tagged : Value → Value
  | .real x => .map [(realTag, .text (Number.realText x))]
  | .moment m => .map [(momentTag, .text m.render)]
  | .bytes content => .map [(bytesTag, .text (String.ofList (Text.Base64.encode content)))]
  | .list items => .list (taggedItems items)
  | .map entries => .map (taggedEntries entries)
  | value => value

def taggedItems : List Value → List Value
  | [] => []
  | item :: rest => tagged item :: taggedItems rest

def taggedEntries : List (String × Value) → List (String × Value)
  | [] => []
  | (name, value) :: rest => (name, tagged value) :: taggedEntries rest

end

mutual

def untagged : Value → Value
  | .list items => .list (untaggedItems items)
  | .map entries =>
      match entries with
      | [(kind, .text s)] => (ofTag? kind s).getD (.map [(kind, .text s)])
      | entries => .map (untaggedEntries entries)
  | value => value

def untaggedItems : List Value → List Value
  | [] => []
  | item :: rest => untagged item :: untaggedItems rest

def untaggedEntries : List (String × Value) → List (String × Value)
  | [] => []
  | (name, value) :: rest => (name, untagged value) :: untaggedEntries rest

end

end Retrieval.Value
