import Retrieval.Filter.Where
import Retrieval.Store.Basic
import Retrieval.Store.Page

/-!
# Clients of a record store

A client of a vector database keeps texts, vectors and scalar metadata in collections. Filters
reach it as clauses, and it answers in columns.
-/

namespace Retrieval

structure Listing where
  limit : Option Int
  clause : Option Where
  columns : List Column

/-- What the client is asked to search for. The count of records may be as the client told it. -/
structure Nearest where
  vector : Embedding
  count : Value
  clause : Option Where
  columns : List Column

structure Item where
  id : String
  vector : Embedding
  document : String
  metadata : Fields

/-- A client. What it answers is a value of any form. -/
structure StoreClient (ω : Type) where
  /-- Opens a collection whose vectors are given; one that was made otherwise can only be opened
  plainly. -/
  openCollection : (name : String) → (plain : Bool) → Action ω Unit
  count : (name : String) → Action ω Value
  upsert : (name : String) → List Item → Action ω Unit
  list : (name : String) → Listing → Action ω Value
  nearest : (name : String) → Nearest → Action ω Value
  delete : (name : String) → List String → Action ω Unit

namespace Item

/-- A metadata value in the form the database keeps. Null values are left out. -/
def scalar : Value → Outcome (Option Value)
  | .null => .ok none
  | .moment m => m.stored.map fun s => some (.text s)
  | value => if value.isScalar then .ok (some value) else value.toText.map fun s => some (.text s)

def scalars : Fields → Outcome Fields
  | [] => .ok []
  | (key, value) :: rest => do
      let kept ← scalar value
      let others ← scalars rest
      return match kept with
        | some value => (key, value) :: others
        | none => others

def identity (r : Record) : List (String × Option String) :=
  [(Key.sourceUri, r.sourceUri), (Key.docId, r.docId), (Key.chunkId, r.chunkId),
    (Key.tenantId, r.tenantId), (Key.versionId, r.versionId)]

/-- The metadata of a record with its identity under the names not yet taken. -/
def metadataOf (r : Record) : Fields :=
  (identity r).foldl (fun fields entry =>
    match entry.2 with
    | some text => fields.setDefault entry.1 (.text text)
    | none => fields) r.fields

def ofRecord (r : Record) : Outcome Item :=
  (scalars (metadataOf r)).map fun metadata => ⟨r.id, r.vector, r.text, metadata⟩

end Item

end Retrieval
