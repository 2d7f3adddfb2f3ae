import Retrieval.Index.Indexer
import Retrieval.Time.Epoch

/-!
# Document versions

A version of a document is the set of records that name it. The versions of a document are listed
newest first; a version is as old as its first record says, or as of now if it says nothing.
-/

namespace Retrieval

open Time

structure Version where
  id : String
  docId : String
  tenantId : String
  createdAt : Moment
  chunkCount : Nat
  metadata : Option Fields

namespace Version

def toFields (v : Version) : Fields :=
  [("version_id", .text v.id), ("doc_id", .text v.docId), ("tenant_id", .text v.tenantId),
    ("created_at", .moment v.createdAt), ("chunk_count", .int v.chunkCount),
    ("metadata", .ofOption .map v.metadata)]

/-- A new version id: the second it was made in, and a serial number. -/
def newId (now : Moment) (serial : Nat) : String :=
  toString now.epochSeconds ++ "-" ++ String.ofList (Text.hexDigits 8 serial)

def ofRecord? (r : Record) : Option String :=
  given ((given r.versionId).or (r.fields.display? Key.versionId))

/-- The version of a record is named, or what its metadata says about it has a text. -/
def isTold (r : Record) : Bool := (given r.versionId).isSome || r.fields.isLegible Key.versionId

/-- Records by version, in the order in which the versions first occur. -/
def groups (records : List Record) : Table (List Record) :=
  records.foldl (fun acc r =>
    match ofRecord? r with
    | some version => acc.set version ((acc.get? version).getD [] ++ [r])
    | none => acc) []

def ofGroup (tenant doc id : String) (now : Moment) (first : Record) (others : List Record) :
    Version where
  id := id
  docId := doc
  tenantId := tenant
  createdAt := first.fields.createdAt?.getD now
  chunkCount := others.length + 1
  metadata := first.metadata.filter (!·.isEmpty)

/-- The versions among the records of a document, newest first. -/
def ofRecords (tenant doc : String) (now : Moment) (records : List Record) : List Version :=
  ((groups records).filterMap fun
    | (id, first :: others) => some (ofGroup tenant doc id now first others)
    | (_, []) => none).mergeSort fun a b => a.createdAt.compare b.createdAt != .lt

def scope (tenant doc : String) : List Filter :=
  [.equals Key.docId (.text doc), .equals Key.tenantId (.text tenant)]

variable {ω : Type}

def fetch (store : VectorStore ω) (tenant : String) (filters : List Filter)
    (collection : Option String) : Action ω (List Record) := do
  let found ← store.query (.listing (.all filters) tenant collection)
  return found.map (·.record)

def list (store : VectorStore ω) (now : ω → Moment) (tenant doc : String)
    (collection : Option String) : Action ω (List Version) := do
  let tenant ← Tenant.checkId (some tenant)
  let records ← fetch store tenant (scope tenant doc) collection
  if records.all isTold then return ofRecords tenant doc (← Action.read now) records
  else throw Value.tooLong

def find? (store : VectorStore ω) (now : ω → Moment) (tenant doc version : String)
    (collection : Option String) : Action ω (Option Version) := do
  let tenant ← Tenant.checkId (some tenant)
  let filters := scope tenant doc ++ [.equals Key.versionId (.text version)]
  match ← fetch store tenant filters collection with
  | [] => return none
  | first :: others => return some (ofGroup tenant doc version (← Action.read now) first others)

end Version

end Retrieval
