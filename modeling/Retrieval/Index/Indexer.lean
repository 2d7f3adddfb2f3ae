import Retrieval.Embedding.Basic
import Retrieval.Index.Basic
import Retrieval.Passage.Chunk
import Retrieval.Store.Basic
import Retrieval.Tenant.Id

/-!
# The indexer

Chunks become records of a tenant's document: all texts are embedded at once, each record names its
tenant, document, version and chunk, and an update first removes the records of other versions.
Whatever fails is told in the report; removing old versions may fail without notice.
-/

namespace Retrieval

open Time

structure Indexer (ω : Type) where
  route : Routing ω
  store : VectorStore ω
  now : ω → Moment

namespace IndexOptions

def docName (o : IndexOptions) : String := o.docId.getD ""

def replaces (o : IndexOptions) : Bool :=
  o.mode == .update && o.deleteOldVersions && (given o.docId).isSome

/-- The records of the document and tenant in any version but the one being written. -/
def staleFilter (o : IndexOptions) : Filter :=
  .all ([.equals Key.docId (.text o.docName), .equals Key.tenantId (.text o.tenantId)] ++
    match given o.versionId with
    | some version => [.not (.equals Key.versionId (.text version))]
    | none => [])

end IndexOptions

namespace Record

/-- What is known of a chunk without its own metadata. -/
def defaults (c : Chunk) (docName createdAt : String) : Fields :=
  [(Key.text, .text c.text), (Key.sourceUri, .text docName), (Key.createdAt, .text createdAt),
    (Key.startIndex, .int c.start), (Key.endIndex, .int c.stop)]

/-- The identity of a record wins over everything else said about it. -/
def identify (fields : Fields) (c : Chunk) (o : IndexOptions) : Fields :=
  let fields := ((fields.set Key.docId (.text o.docName)).set Key.chunkId (.text c.id)).set
    Key.tenantId (.text o.tenantId)
  match given o.versionId with
  | some version => fields.set Key.versionId (.text version)
  | none => fields.erase Key.versionId

def metadataOf (c : Chunk) (o : IndexOptions) (createdAt : String) : Fields :=
  identify ((defaults c o.docName createdAt).update (c.metadata.getD [])) c o

/-- A record is known by document, version and chunk if it has all three. -/
def idOf (c : Chunk) (o : IndexOptions) : String :=
  match given o.docId, given o.versionId with
  | some doc, some version => doc ++ "_" ++ version ++ "_" ++ c.id
  | _, _ => c.id

def ofChunk (o : IndexOptions) (createdAt : String) (c : Chunk) (vector : Embedding) : Record :=
  let fields := metadataOf c o createdAt
  { id := idOf c o
    vector
    text := c.text
    metadata := some fields
    sourceUri := fields.display? Key.sourceUri
    docId := o.docId
    chunkId := some c.id
    tenantId := some o.tenantId
    versionId := o.versionId }

def ofChunks (o : IndexOptions) (createdAt : String) (chunks : List Chunk)
    (vectors : List Embedding) : List Record :=
  List.zipWith (ofChunk o createdAt) chunks vectors

/-- The records of chunks, where the source of each has a text. -/
def build (o : IndexOptions) (createdAt : String) (chunks : List Chunk)
    (vectors : List Embedding) : Outcome (List Record) :=
  let records := ofChunks o createdAt chunks vectors
  if records.all (·.fields.isLegible Key.sourceUri) then .ok records else .error Value.tooLong

end Record

namespace Indexer

variable {ω : Type}

def embed (x : Indexer ω) (chunks : List Chunk) (o : IndexOptions) :
    Action ω (List Embedding) := do
  let tenant ← Tenant.checkId (some o.tenantId)
  let embedder := x.route.select tenant
  let vectors ← embedder.embed (chunks.map (·.text))
  if vectors.length = chunks.length then return vectors
  else throw (miscounted embedder.name chunks.length vectors.length)

def removeStale (x : Indexer ω) (o : IndexOptions) : Action ω Unit := do
  let stale ← x.store.query (.listing o.staleFilter o.tenantId o.collection)
  if !stale.isEmpty then
    let _ ← x.store.delete (stale.map (·.record.id)) o.collection none

def write (x : Indexer ω) (chunks : List Chunk) (o : IndexOptions) : Action ω Nat := do
  let vectors ← x.embed chunks o
  let createdAt ← (← Action.read x.now).stored
  let records ← (Record.build o createdAt chunks vectors : Outcome (List Record))
  if o.replaces then
    let _ ← (x.removeStale o).attempt
  let _ ← x.store.upsert records o.collection
  return records.length

def report (chunks : List Chunk) : Outcome Nat → IndexReport
  | .ok count => ⟨chunks.length, count, none⟩
  | .error f => ⟨chunks.length, 0, some [f.text]⟩

/-- Indexes chunks; the report tells what failed. -/
def index (x : Indexer ω) (chunks : List Chunk) (o : IndexOptions) : StateM ω IndexReport :=
  fun w =>
    if chunks.isEmpty then (⟨0, 0, none⟩, w)
    else let (outcome, w) := x.write chunks o w; (report chunks outcome, w)

end Indexer

end Retrieval
