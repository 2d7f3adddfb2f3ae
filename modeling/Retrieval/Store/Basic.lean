import Retrieval.Effect.Action
import Retrieval.Filter.Basic
import Retrieval.Record

/-!
# Stores of records

A store keeps records in collections. A query with a vector ranks the records a filter accepts by
similarity; one without lists them. Naming no collection means the store's standard one.
-/

namespace Retrieval

structure Query where
  vector : Option Embedding
  topK : Int
  filter : Option Filter
  tenant : Option String
  collection : Option String

structure VectorStore (ω : Type) where
  name : String
  /-- Writes records, replacing those with the same id, and counts them. -/
  upsert : List Record → (collection : Option String) → Action ω Nat
  query : Query → Action ω (List Match)
  /-- Deletes the records with the given ids, or if there are none, those a filter accepts. -/
  delete : (ids : List String) → (collection : Option String) → Option Filter → Action ω Nat

/-- All records that a filter accepts, up to a large number. -/
def Query.listing (filter : Filter) (tenant : String) (collection : Option String) : Query where
  vector := none
  topK := 10000
  filter := some filter
  tenant := some tenant
  collection := collection

end Retrieval
