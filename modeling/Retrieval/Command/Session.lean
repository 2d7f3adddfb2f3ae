import Retrieval.Command.Request
import Retrieval.Config.Deployment
import Retrieval.Filter.Clause
import Retrieval.Service

/-!
# Carrying out commands

A command acts on a site and writes lines for the user, warnings apart from the rest. It ends with a
status, zero if all went well. A fault of the library or a value that makes no sense is told in a
warning; any other fault ends the program.
-/

namespace Retrieval.Command

structure Session (ω : Type) where
  world : ω
  out : String
  err : String

namespace Session

variable {ω α : Type}

def say (line : String) : Action (Session ω) Unit :=
  Action.change fun s => { s with out := s.out ++ line ++ "\n" }

def warn (line : String) : Action (Session ω) Unit :=
  Action.change fun s => { s with err := s.err ++ line ++ "\n" }

def onWorld (a : Action ω α) : Action (Session ω) α :=
  a.within Session.world fun world s => { s with world }

end Session

open Session

variable {σ : Type}

def padRight (width : Nat) (text : String) : String :=
  text ++ String.ofList (List.replicate (width - text.length) ' ')

/-- A number that was given; zero counts as not given. -/
def nonzero (n : Option Int) : Option Int := n.filter (· ≠ 0)

namespace Options

/-- The chunk options asked for, where nothing is said as in `base`. -/
def chunking (o : Options) (base : ChunkOptions) : Outcome ChunkOptions :=
  (ChunkOptions.read [("max_size", .int ((nonzero o.maxSize).getD base.budget)),
    ("overlap", .int (o.overlap.getD base.overlap)),
    ("strategy", .text (o.strategy.getD base.strategy).name)]).toOutcome "ChunkOptions"

/-- An update replaces the older versions. -/
def indexing (o : Options) : IndexOptions where
  tenantId := o.tenant
  docId := o.docId
  versionId := none
  collection := o.collection
  mode := if o.update then .update else .upsert
  deleteOldVersions := o.update

end Options

def tellBatch (b : BatchReport) : Action (Session (Site σ)) Nat := do
  let complaints := b.results.flatMap fun r => r.errors.getD []
  say "\nIngestion complete:"
  say ("  Documents ok:    " ++ toString b.results.length)
  say ("  Documents failed: " ++ toString b.errors.length)
  say ("  Chunks indexed:  " ++ toString b.totalChunks)
  say ("  Vectors created: " ++ toString b.totalVectors)
  b.errors.forM fun f => warn ("  ! " ++ f.sourceUri ++ ": " ++ f.message)
  complaints.forM fun message => warn ("  ! " ++ message)
  return if b.errors.isEmpty && complaints.isEmpty then 0 else 1

def ingest (d : Deployment) (service : Service σ) (uris : List String) (o : Options) :
    Action (Session (Site σ)) Nat := do
  let chunking ← o.chunking d.chunking
  say ("Ingesting " ++ toString uris.length ++ " document(s) for tenant '" ++ o.tenant ++ "'")
  let limit := (nonzero o.concurrency).getD d.settings.ingestMaxConcurrency
  let batch ← onWorld
    (Site.ingestBatch service.pipeline uris o.indexing (some chunking) (some limit) service.cores)
  tellBatch batch

def onOutside {α : Type} (a : Action σ α) : Action (Session (Site σ)) α :=
  onWorld (Site.onWorld (World.onOutside a))

def versions (service : Service σ) (docId : String) (o : Options) :
    Action (Session (Site σ)) Nat := do
  match ← onOutside (service.versions o.tenant docId o.collection) with
  | [] => say ("No versions stored for '" ++ docId ++ "'")
  | found =>
      say ("Versions of '" ++ docId ++ "' (newest first):")
      found.forM fun v => say ("  " ++ v.id ++ "  " ++ v.createdAt.render ++ "  chunks=" ++
        toString v.chunkCount)
  return 0

/-- Where a source comes from: its address or document, and the heading it stands under. -/
def sourceLabel (s : Source) : Outcome String := do
  let origin := ((given s.sourceUri).or (given s.docId)).getD "?"
  let heading ← (s.chunk.metadata.getD []).text? Key.heading
  return match given heading with
    | some heading => origin ++ " > " ++ heading
    | none => origin

/-- The beginning of a text on one line. -/
def preview (text : String) : String :=
  String.ofList (((Text.fields text.toList).intersperse [' ']).flatten.take 200)

def query (d : Deployment) (service : Service σ) (text : String) (o : Options) :
    Action (Session (Site σ)) Nat := do
  let filter ← Filter.ofClauses o.clauses
  let topK := (nonzero o.topK).getD d.settings.retrievalTopK
  let found ← onOutside (service.retriever.retrieve ⟨text, o.tenant, topK, filter, o.collection⟩)
  if found.sources.isEmpty then say "No matches."
  (found.sources.zipIdx 1).forM fun (s, number) => do
    let label ← (sourceLabel s : Outcome String)
    say (toString number ++ ". [" ++ Number.fixedText 3 s.score ++ "] " ++ label)
    say ("   " ++ preview s.chunk.text)
  return 0

def quotasText (t : Tenant) : Outcome String :=
  match ((t.quotas.map Quotas.toFields).getD []).filter fun entry => !entry.2.isNull with
  | [] => .ok "unlimited"
  | quotas => (Value.map quotas).toLiteral

def tenants : Action (Session (Site σ)) Nat := do
  let known ← Action.read fun s => s.world.world.registry.values
  known.forM fun t => do
    let quotas ← (quotasText t : Outcome String)
    say (padRight 20 t.id ++ " " ++ padRight 30 t.name ++ " " ++ quotas)
  return 0

def Task.perform (d : Deployment) (service : Service σ) : Task → Action (Session (Site σ)) Nat
  | .ingest uris o => Command.ingest d service uris o
  | .versions docId o => Command.versions service docId o
  | .query text o => Command.query d service text o
  | .tenants => Command.tenants

/-- How a run of the program ends, and what it wrote. -/
structure Execution where
  status : Outcome Nat
  out : String
  err : String

namespace Execution

def isTold (f : Fault) : Bool := f.kind.isOwn || f.kind.isBadValue

def ofSession {ω : Type} (outcome : Outcome Nat) (s : Session ω) : Execution :=
  match outcome with
  | .error f =>
      if isTold f then ⟨.ok 1, s.out, s.err ++ "Error: " ++ f.text ++ "\n"⟩
      else ⟨.error f, s.out, s.err⟩
  | .ok status => ⟨.ok status, s.out, s.err⟩

end Execution

def Request.execute {ω : Type} (help : String) (perform : Task → Action (Session ω) Nat)
    (r : Request) : StateM ω Execution := fun world =>
  match r with
  | .help asked => (⟨.ok (if asked then 0 else 1), help, ""⟩, world)
  | .refused program complaint =>
      (⟨.ok 2, "", program ++ ": error: " ++ complaint.message ++ "\n"⟩, world)
  | .run task =>
      let (outcome, s) := (perform task).perform ⟨world, "", ""⟩
      (.ofSession outcome s, s.world)

end Retrieval.Command
