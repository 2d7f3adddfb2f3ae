import Retrieval.Store.Basic
import Retrieval.Store.Cosine

/-!
# The store in memory

Collections are tables of records by id, in the order in which the ids were first written. Queries
look at every record; records of equal similarity keep their order.
-/

namespace Retrieval

structure Memory where
  standard : String
  collections : Table (Table Record)
deriving Inhabited

namespace Memory

def empty (standard : String) : Memory := ⟨standard, []⟩

/-- The name of a collection; an empty name means the standard one. -/
def resolve (m : Memory) (collection : Option String) : String :=
  match collection with
  | some name => if name.isEmpty then m.standard else name
  | none => m.standard

def records (m : Memory) (collection : Option String) : Table Record :=
  (m.collections.get? (m.resolve collection)).getD []

def setRecords (m : Memory) (collection : Option String) (records : Table Record) : Memory :=
  { m with collections := m.collections.set (m.resolve collection) records }

def store (m : Memory) (records : List Record) (collection : Option String) : Memory :=
  m.setRecords collection ((m.records collection).update (records.map fun r => (r.id, r)))

def selects (filter : Option Filter) (r : Record) : Outcome Bool :=
  match filter with
  | some f => f.evaluate r.fields
  | none => .ok true

def candidates (filter : Option Filter) : List Record → Outcome (List Record)
  | [] => .ok []
  | r :: rest => do
      let selected ← selects filter r
      let others ← candidates filter rest
      return if selected then r :: others else others

/-- The records as matches for a vector, most similar first. Without a vector all match alike. -/
def rank (vector : Option Embedding) (records : List Record) : List Match :=
  match vector with
  | none => records.map fun r => ⟨r, 1⟩
  | some v => (records.map fun r => (⟨r, cosineSimilarity v r.vector⟩ : Match)).mergeSort
      fun a b => !(a.score < b.score)

def search (m : Memory) (q : Query) : Outcome (List Match) :=
  if q.topK ≤ 0 then .ok []
  else (candidates q.filter (m.records q.collection).values).map fun records =>
    (rank q.vector records).take q.topK.toNat

def doomed (m : Memory) (ids : List String) (collection : Option String)
    (filter : Option Filter) : Outcome (List String) :=
  if !ids.isEmpty then .ok (ids.filter (m.records collection).has)
  else match filter with
    | some f =>
        (candidates (some f) (m.records collection).values).map fun records => records.map (·.id)
    | none => .ok []

/-- Removes records by id until one is not there any more. -/
def removeAll (records : Table Record) : List String → Outcome Unit × Table Record
  | [] => (.ok (), records)
  | id :: later =>
      if records.has id then removeAll (records.erase id) later
      else (.error (.missingKey id), records)

def remove (m : Memory) (ids : List String) (collection : Option String)
    (filter : Option Filter) : Outcome Nat × Memory :=
  match m.doomed ids collection filter with
  | .error f => (.error f, m)
  | .ok ids =>
      let (outcome, rest) := removeAll (m.records collection) ids
      (outcome.map fun _ => ids.length, m.setRecords collection rest)

def backend : VectorStore Memory where
  name := "memory"
  upsert records collection m := (.ok records.length, m.store records collection)
  query q m := (m.search q, m)
  delete ids collection filter m := m.remove ids collection filter

end Memory

namespace VectorStore

variable {ω ν : Type}

def within (part : ν → ω) (put : ω → ν → ν) (s : VectorStore ω) : VectorStore ν where
  name := s.name
  upsert records collection := (s.upsert records collection).within part put
  query q := (s.query q).within part put
  delete ids collection filter := (s.delete ids collection filter).within part put

end VectorStore

end Retrieval
