import Retrieval.Document.Extract
import Retrieval.Document.Loader
import Retrieval.Index.Enrich
import Retrieval.Version.History
import Retrieval.World

/-!
# Ingesting a document

A document is loaded, its text extracted, cut into chunks, enriched and indexed. The stages of a
document are steps of their own, so that several documents can be on their way at once; a step
changes the world and moves the document to its next stage. Quotas are checked before a document is
loaded and recorded once it is indexed.
-/

namespace Retrieval

open Time

structure Chunker (σ : Type) where
  cut : (options : ChunkOptions) → (serial : Nat) → (text : String) → Action σ (List Chunk)

namespace Chunker

variable {σ : Type}

def ofStrategies (registry : StrategyRegistry) (masking : Sentence.Masking) : Chunker σ :=
  ⟨fun options serial text => Chunk.cut registry options serial text masking⟩

def standard : Chunker σ := ofStrategies .standard .standard

end Chunker

structure Pipeline (σ : Type) where
  loader : Loader σ
  extractor : Extractor σ
  chunker : Chunker σ
  /-- Writes chunks and reports what came of it. -/
  index : List Chunk → IndexOptions → StateM σ IndexReport
  /-- The versions of a document. -/
  versions : (tenant doc : String) → (collection : Option String) → Action σ (List Version)
  /-- Documents without a version get a new one. -/
  versioned : Bool
  /-- Tenants are held to their quotas. -/
  limited : Bool
  now : σ → Moment

structure Job where
  uri : String
  options : IndexOptions
  chunking : Option ChunkOptions
deriving DecidableEq, Repr

inductive Stage
  | queued
  | loading (options : IndexOptions) (seconds : Rat)
  | loaded (options : IndexOptions) (document : Document)
  | prepared (options : IndexOptions) (document : Document) (chunks : List Chunk)
  | indexed (options : IndexOptions) (document : Document) (report : IndexReport)
  | done (outcome : Outcome IndexReport)

namespace Stage

/-- The most steps that are left. -/
def left : Stage → Nat
  | .queued => 5
  | .loading _ _ => 4
  | .loaded _ _ => 3
  | .prepared _ _ _ => 2
  | .indexed _ _ _ => 1
  | .done _ => 0

def outcome? : Stage → Option (Outcome IndexReport)
  | .done outcome => some outcome
  | _ => none

end Stage

def quotaDenial (tenant : String) : IndexReport :=
  .failed ["quota exceeded for tenant '" ++ tenant ++ "'"]

namespace Pipeline

variable {σ : Type}

/-- A pipeline that writes with an indexer and finds versions in the indexer's store. -/
def ofIndexer (loader : Loader σ) (extractor : Extractor σ) (chunker : Chunker σ)
    (indexer : Indexer σ) (versioned limited : Bool) (now : σ → Moment) : Pipeline σ where
  loader
  extractor
  chunker
  index := indexer.index
  versions := Version.list indexer.store now
  versioned
  limited
  now

/-- The options with a version, if one is due. -/
def assignVersion (p : Pipeline σ) (o : IndexOptions) (w : World σ) : IndexOptions × World σ :=
  if p.versioned && (given o.docId).isSome && (given o.versionId).isNone then
    ({ o with versionId := some (Version.newId (p.now w.outside) w.versionSerial) },
      { w with versionSerial := w.versionSerial + 1 })
  else (o, w)

/-- An update looks at the versions there are; what it finds, or that it fails, changes nothing. -/
def noticeVersions (p : Pipeline σ) (o : IndexOptions) (w : World σ) : World σ :=
  if o.mode == .update && p.versioned && (given o.docId).isSome then
    (World.onOutside (p.versions o.tenantId o.docName o.collection) w).2
  else w

def admits (p : Pipeline σ) (tenant : String) (w : World σ) : Bool :=
  !p.limited || w.ledger.canIngest w.registry tenant

/-- The first step: checks, the version, and the request to the loader. -/
def start (p : Pipeline σ) (j : Job) (w : World σ) : Stage × World σ :=
  match Tenant.checkId (some j.options.tenantId) with
  | .error f => (.done (.error f), w)
  | .ok tenant =>
      let (options, w) := p.assignVersion j.options w
      let w := p.noticeVersions options w
      if p.admits tenant w then
        let asked := p.loader.request j.uri w.outside
        (.loading options asked.1, w.withOutside asked.2)
      else (.done (.ok (quotaDenial tenant)), w)

/-- The chunks of a text, each with the provenance of its document. -/
def prepare (p : Pipeline σ) (j : Job) (d : Document) : Action (World σ) (List Chunk) := do
  let text ← World.onOutside (p.extractor.extract d)
  let serial ← Action.read World.chunkSerial
  let chunks ← World.onOutside (p.chunker.cut (j.chunking.getD .standard) serial text)
  Action.change fun w => { w with chunkSerial := w.chunkSerial + chunks.length }
  chunks.mapM fun c => do c.enrich d (← Action.read fun w => p.now w.outside)

/-- Counts an indexed document, if anything of it was written. -/
def record (p : Pipeline σ) (o : IndexOptions) (d : Document) (r : IndexReport) (w : World σ) :
    World σ :=
  if p.limited && 0 < r.vectorsCreated then
    { w with ledger := w.ledger.recordDocument o.tenantId d.content.length }
  else w

def advance (p : Pipeline σ) (j : Job) : Stage → World σ → Stage × World σ
  | .queued, w => p.start j w
  | .loading o _, w =>
      match World.onOutside (p.loader.receive j.uri) w with
      | (.ok d, w) => (.loaded o d, w)
      | (.error f, w) => (.done (.error f), w)
  | .loaded o d, w =>
      match p.prepare j d w with
      | (.ok chunks, w) => (.prepared o d chunks, w)
      | (.error f, w) => (.done (.error f), w)
  | .prepared o d chunks, w =>
      let written := p.index chunks o w.outside
      (.indexed o d written.1, w.withOutside written.2)
  | .indexed o d report, w => (.done (.ok report), p.record o d report w)
  | .done outcome, w => (.done outcome, w)

theorem left_advance_lt (p : Pipeline σ) (j : Job) {s : Stage} (w : World σ)
    (h : s.outcome? = none) : (p.advance j s w).1.left < s.left := by
  cases s with
  | queued =>
      show (p.start j w).1.left < 5
      unfold start
      split
      · simp [Stage.left]
      · dsimp only
        split <;> simp [Stage.left]
  | loading o seconds => simp only [advance]; split <;> simp [Stage.left]
  | loaded o d => simp only [advance]; split <;> simp [Stage.left]
  | prepared o d chunks => simp [advance, Stage.left]
  | indexed o d report => simp [advance, Stage.left]
  | done outcome => simp [Stage.outcome?] at h

def finish (p : Pipeline σ) (j : Job) (s : Stage) (w : World σ) : Outcome IndexReport × World σ :=
  match _h : s.outcome? with
  | some outcome => (outcome, w)
  | none => p.finish j (p.advance j s w).1 (p.advance j s w).2
termination_by s.left
decreasing_by exact p.left_advance_lt j w _h

def ingest (p : Pipeline σ) (j : Job) : Action (World σ) IndexReport := fun w =>
  let (s, w) := p.start j w
  p.finish j s w

end Pipeline

end Retrieval
