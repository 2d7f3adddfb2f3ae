import Retrieval.Config.Quoted
import Retrieval.Config.Scalar
import Retrieval.Value.Print

/-!
# Configuration text

A configuration is one value: a scalar, a list in brackets or a map in braces. Spaces, line ends and
comments may stand between the parts, but no tabs. A comma may follow the last part, a map's value
may be missing, and a list may hold a single entry of a map. A name stands on one line with its
colon and no further than 1024 characters from it.

A text is read into nodes first, and values are made of the nodes level by level. Only then words
are looked at: some stand for no value, and whole numbers to base ten may have too many digits.
-/

namespace Retrieval.Config.Flow

def skipGap (commented : Bool) : List Char → List Char
  | [] => []
  | c :: rest =>
      if isLineEnd c then skipGap false rest
      else if commented || c == ' ' then skipGap commented rest
      else if c == '#' then skipGap true rest
      else c :: rest

def skip (text : List Char) : List Char := skipGap false text

def isAllowed (c : Char) : Bool :=
  c == '\t' || c == '\n' || c == '\r' || c == '\u0085' || (' ' ≤ c && c ≤ '~') ||
    ('\u00a0' ≤ c && c ≤ '\ufffd') || 0x10000 ≤ c.toNat

/-- Characters that do not open a scalar without quotes. -/
def isIndicator (c : Char) : Bool :=
  "-?:,[]\x7b\x7d#&*!|>'\"%@".toList.contains c || c.toNat == 96

/-- A scalar without quotes opens here. A dash does if it belongs to a word, and outside brackets so
do the question mark and the colon. -/
def opensPlain (nested : Bool) (c : Char) (rest : List Char) : Bool :=
  !isIndicator c || (!endsWord rest && (c == '-' || (!nested && (c == '?' || c == ':'))))

def widestName : Nat := 1024

/-- The text from a name to its colon is short and on one line. -/
def isNear (fromName fromColon : List Char) : Bool :=
  let between := fromName.take (fromName.length - fromColon.length)
  between.length ≤ widestName && !between.any isLineEnd

inductive Node
  | missing
  | word (text : List Char)
  | quoted (text : String)
  | list (items : List Node)
  | map (entries : List (Node × Node))

/-- Why no value can be made of a node. -/
inductive Trouble
  | malformed
  | oversized (digits : Nat)
deriving DecidableEq, Repr

namespace Node

/-- Lists and maps name no entry. -/
def isName : Node → Bool
  | .list _ | .map _ => false
  | _ => true

def wordTrouble? (text : List Char) : Option Trouble :=
  let digits := Scalar.decimalDigits text
  if Number.mostDigits < digits then some (.oversized digits)
  else if (Scalar.resolve? text).isNone then some .malformed
  else none

mutual

def height : Node → Nat
  | .list items => itemsHeight items + 1
  | .map entries => entriesHeight entries + 1
  | _ => 0

def itemsHeight : List Node → Nat
  | [] => 0
  | item :: rest => max item.height (itemsHeight rest)

def entriesHeight : List (Node × Node) → Nat
  | [] => 0
  | (key, value) :: rest => max (max key.height value.height) (entriesHeight rest)

end

mutual

/-- The troubles of the nodes that stand `depth` levels down, in order. -/
def troubles : (depth : Nat) → Node → List Trouble
  | 0, .word text => (wordTrouble? text).toList
  | depth + 1, .list items => itemsTroubles depth items
  | depth + 1, .map entries => entriesTroubles depth entries
  | _, _ => []

def itemsTroubles (depth : Nat) : List Node → List Trouble
  | [] => []
  | item :: rest => item.troubles depth ++ itemsTroubles depth rest

def entriesTroubles (depth : Nat) : List (Node × Node) → List Trouble
  | [] => []
  | (key, value) :: rest =>
      (if depth = 0 ∧ !key.isName then [.malformed] else []) ++ key.troubles depth ++
        value.troubles depth ++ entriesTroubles depth rest

end

def trouble? (node : Node) : Option Trouble :=
  (List.range (node.height + 1)).findSome? fun depth => (node.troubles depth).head?

mutual

/-- The value of a node without trouble. A name given twice keeps its first place and its last
value. -/
def value : Node → Value
  | .missing => .null
  | .word text => (Scalar.resolve? text).getD .null
  | .quoted text => .text text
  | .list items => .list (itemValues items)
  | .map entries => .map (addEntries [] entries)

def itemValues : List Node → List Value
  | [] => []
  | item :: rest => item.value :: itemValues rest

def addEntries (fields : Fields) : List (Node × Node) → Fields
  | [] => fields
  | (key, value) :: rest => addEntries (fields.set key.value.display value.value) rest

end

end Node

/-! The readers take fuel. At least every fourth of their steps consumes a character, so four times
a text's length is enough. -/

mutual

/-- The node that opens a text without a gap, and what follows it behind the gap. -/
def node? : (fuel : Nat) → (nested : Bool) → List Char → Option (Node × List Char)
  | 0, _, _ => none
  | _, _, [] => none
  | fuel + 1, nested, c :: rest =>
      if c == '[' then (items? fuel (skip rest)).map fun (items, rest) => (.list items, rest)
      else if c == '\x7b' then
        (entries? fuel (skip rest)).map fun (entries, rest) => (.map entries, rest)
      else if c == '"' || c == '\'' then
        (quoted? c .nothing rest).map fun (units, rest) =>
          (.quoted (String.ofList (Json.charsOf units)), skip rest)
      else if opensPlain nested c rest then
        let (word, rest) := plain nested .nothing (c :: rest)
        some (.word word, skip rest)
      else none

def entryValue? : (fuel : Nat) → (close : Char) → List Char → Option (Node × List Char)
  | 0, _, _ => none
  | fuel + 1, close, text =>
      match text.head? with
      | some c => if c == ',' || c == close then some (.missing, text) else node? fuel true text
      | none => none

def items? : (fuel : Nat) → List Char → Option (List Node × List Char)
  | 0, _ => none
  | fuel + 1, text =>
      match text with
      | ']' :: rest => some ([], skip rest)
      | text =>
          match node? fuel true text with
          | none => none
          | some (key, ':' :: rest) =>
              match entryValue? fuel ']' (skip rest) with
              | some (value, after) =>
                  if isNear text (':' :: rest) then moreItems? fuel (.map [(key, value)]) after
                  else none
              | none => none
          | some (item, rest) => moreItems? fuel item rest

def moreItems? : (fuel : Nat) → Node → List Char → Option (List Node × List Char)
  | 0, _, _ => none
  | _, item, ']' :: rest => some ([item], skip rest)
  | fuel + 1, item, ',' :: rest =>
      (items? fuel (skip rest)).map fun (items, rest) => (item :: items, rest)
  | _, _, _ => none

def entries? : (fuel : Nat) → List Char → Option (List (Node × Node) × List Char)
  | 0, _ => none
  | fuel + 1, text =>
      match text with
      | '\x7d' :: rest => some ([], skip rest)
      | text =>
          match node? fuel true text with
          | none => none
          | some (key, ':' :: rest) =>
              match entryValue? fuel '\x7d' (skip rest) with
              | some (value, after) =>
                  if isNear text (':' :: rest) then moreEntries? fuel (key, value) after else none
              | none => none
          | some (key, rest) => moreEntries? fuel (key, .missing) rest

def moreEntries? : (fuel : Nat) → Node × Node → List Char →
    Option (List (Node × Node) × List Char)
  | 0, _, _ => none
  | _, entry, '\x7d' :: rest => some ([entry], skip rest)
  | fuel + 1, entry, ',' :: rest =>
      (entries? fuel (skip rest)).map fun (entries, rest) => (entry :: entries, rest)
  | _, _, _ => none

end

def byteOrderMark : Char := '\ufeff'

/-- The node of a whole configuration; one of blanks and comments is missing. -/
def ofText? (text : List Char) : Option Node :=
  if !text.all isAllowed then none
  else
    let text := oneLineEnd text
    match skip (if text.head? = some byteOrderMark then text.drop 1 else text) with
    | [] => some .missing
    | start =>
        match node? (4 * start.length + 4) false start with
        | some (node, []) => some node
        | _ => none

end Retrieval.Config.Flow
