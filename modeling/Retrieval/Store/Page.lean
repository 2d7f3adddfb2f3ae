import Retrieval.Record
import Retrieval.Store.Cosine

/-!
# Answers in columns

A database of records answers in columns that run in parallel to the ids, and any of them may be
left out. Read as lines they give records; nearness is told as a distance, one minus which is the
score. Nothing in an answer is trusted: lines are read in order up to the first that is not as it
should be, and columns that differ in length are noticed where the shortest of them ends.
-/

namespace Retrieval

inductive Column
  | documents
  | metadatas
  | distances
  | embeddings
deriving DecidableEq, Repr

def Column.name : Column → String
  | .documents => "documents"
  | .metadatas => "metadatas"
  | .distances => "distances"
  | .embeddings => "embeddings"

namespace Column

def outOfRange : Fault := { kind := .other "IndexError", message := "list index out of range" }

def notIterable (value : Value) : Fault :=
  .badType ("'" ++ value.typeName ++ "' object is not iterable")

def notIndexable : Value → Fault
  | .list _ => .badType "list indices must be integers or slices, not str"
  | .text _ => .badType "string indices must be integers, not 'str'"
  | value => .badType ("'" ++ value.typeName ++ "' object is not subscriptable")

def find (answer : Value) (name : String) : Outcome Value :=
  match answer with
  | .map fields =>
      match Table.get? fields name with
      | some column => .ok column
      | none => .error (.missingKey name)
  | value => .error (notIndexable value)

/-- A column, filled with `fallback` if it is left out or empty. -/
def filled (count : Nat) (fallback : Value) : Value → List Value
  | .list (item :: rest) => item :: rest
  | _ => List.replicate count fallback

def items : Value → Outcome (List Value)
  | .list items => .ok items
  | value => .error (notIterable value)

def first (count : Nat) (fallback : Value) : Value → Value
  | .list (column :: _) => column
  | _ => .list (List.replicate count fallback)

def firstVectors : Value → Outcome (Option (List Value))
  | .null => .ok none
  | .list (.null :: _) => .ok none
  | .list (column :: _) => (items column).map some
  | _ => .error outOfRange

/-- A part of a line, which is missing if its column ends before. -/
def part : Option Value → Outcome Value
  | some value => .ok value
  | none => .error outOfRange

/-- The metadata of a line; null counts as none. -/
def fields : Value → Fields
  | .map fields => fields
  | _ => []

end Column

/-- An answer to one question, with columns that are left out filled in; vectors have no filling. -/
structure Page where
  ids : List Value
  documents : List Value
  metadatas : List Value
  distances : List Value
  embeddings : Option (List Value)

structure Row where
  id : Value
  document : Option Value
  metadata : Option Value
  distance : Value
  embedding : Option Value

namespace Row

open Column

def vectorOf (embedding : Value) : Outcome Embedding := do
  (← items embedding).mapM Value.toReal

/-- The text of a line, which its metadata may hold instead. -/
def text (document : Value) (metadata : Fields) : Outcome Value :=
  if document.isTruthy then .ok document
  else match metadata.get? Key.text with
    | some value => value.toText.map .text
    | none => .ok (.text "")

def record (r : Row) : Outcome Record := do
  let document ← part r.document
  let metadata := fields (← part r.metadata)
  let vector ← vectorOf (← part r.embedding)
  let text ← text document metadata
  let reference (key : String) : Outcome Value := (metadata.text? key).map (.ofOption .text)
  (Record.read [("id", r.id), ("vector", .list (vector.map .real)), ("text", text),
    ("metadata", .map metadata), ("source_uri", ← reference Key.sourceUri),
    ("doc_id", ← reference Key.docId), ("chunk_id", ← reference Key.chunkId),
    ("tenant_id", ← reference Key.tenantId),
    ("version_id", ← reference Key.versionId)]).toOutcome "VectorRecord"

def score (r : Row) : Outcome Float :=
  match r.distance with
  | .real _ | .int _ | .bool _ => r.distance.toReal.map fun x => clampUnit (1 - x)
  | value => .error (.badType ("unsupported operand type(s) for -: 'float' and '" ++
      value.typeName ++ "'"))

end Row

/-- Lines to be read in order, and what is found wrong behind the last of them. -/
structure Lines where
  rows : List Row
  fault : Option Fault

def gather {α : Type} (read : Row → Outcome (Option α)) : List Row → Outcome (List α)
  | [] => .ok []
  | r :: rest => do
      let found ← read r
      let others ← gather read rest
      return match found with
        | some a => a :: others
        | none => others

def Lines.gather {α : Type} (l : Lines) (read : Row → Outcome (Option α)) : Outcome (List α) :=
  match Retrieval.gather read l.rows, l.fault with
  | .ok _, some fault => .error fault
  | found, _ => found

namespace Page

open Column

/-- Columns by number, counted from one, up to some number. -/
def argumentsUpTo (number : Nat) : String :=
  if number = 1 then "argument 1" else "arguments 1-" ++ toString number

def uneven (number : Nat) (relation : String) : Fault :=
  .badValue ("zip() argument " ++ toString (number + 1) ++ " is " ++ relation ++ " than " ++
    argumentsUpTo number)

/-- What is wrong with columns beside `count` ids: the first that is not as long as they are. A
short column is noticed before a long one. -/
def lengthFault? (count : Nat) (lengths : List Nat) : Option Fault :=
  let least := lengths.foldl min count
  if least < count then some (uneven (lengths.findIdx (· == least) + 1) "shorter")
  else (lengths.findIdx? (count < ·)).map fun n => uneven (n + 1) "longer"

def rows (p : Page) : List Row :=
  p.ids.zipIdx.map fun (id, i) =>
    ⟨id, p.documents[i]?, p.metadatas[i]?, p.distances.getD i .null,
      match p.embeddings with
      | some vectors => vectors[i]?
      | none => some (.list [])⟩

def ofListing (answer : Value) : Outcome Page := do
  let ids := filled 0 .null (← find answer "ids")
  let documents ← find answer Column.documents.name
  let metadatas ← find answer Column.metadatas.name
  let vectors ← match ← find answer Column.embeddings.name with
    | .null => pure none
    | column => some <$> items column
  return ⟨ids, filled ids.length (.text "") documents, filled ids.length (.map []) metadatas, [],
    vectors⟩

def listed (answer : Value) : Outcome Lines := (ofListing answer).map fun p => ⟨p.rows, none⟩

def marked (answer : Value) : Outcome Lines := do
  let ids := filled 0 .null (← find answer "ids")
  let metadatas := filled ids.length (.map []) (← find answer Column.metadatas.name)
  return ⟨(Page.mk ids [] metadatas [] none).rows.take metadatas.length,
    lengthFault? ids.length [metadatas.length]⟩

/-- The lines of an answer to a search, whose columns must all be of one length. -/
def nearest (answer : Value) : Outcome Lines := do
  let ids := filled 0 .null (first 0 .null (← find answer "ids"))
  let n := ids.length
  if n = 0 then return ⟨[], none⟩
  let documents := first n (.text "") (← find answer Column.documents.name)
  let metadatas := first n (.map []) (← find answer Column.metadatas.name)
  let distances := first n (.real 0) (← find answer Column.distances.name)
  let vectors ← firstVectors (← find answer Column.embeddings.name)
  let p : Page := ⟨ids, ← items documents, ← items metadatas, ← items distances, vectors⟩
  let lengths := [p.documents.length, p.metadatas.length, p.distances.length]
  return ⟨p.rows.take (lengths.foldl min n), lengthFault? n lengths⟩

end Page

end Retrieval
