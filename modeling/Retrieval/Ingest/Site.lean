import Retrieval.Ingest.Batch
import Retrieval.Schedule.Worker

/-!
# Ingesting while a worker works

A site is a world with a background worker that ingests documents of its own. Whenever time passes
for a document in the foreground, the worker goes on.
-/

namespace Retrieval

structure Site (σ : Type) where
  world : World σ
  worker : Worker Job (Job × Stage)

namespace Site

variable {σ : Type}

def withWorld (world : World σ) (s : Site σ) : Site σ := { s with world }

def onWorld {α : Type} (a : Action (World σ) α) : Action (Site σ) α := a.within Site.world withWorld

def workerWork (p : Pipeline σ) : Work (World σ) Job (Job × Stage) IndexReport :=
  p.work id (fun w _ => w) fun _ w => w

def onWorker (f : Worker Job (Job × Stage) → World σ → Worker Job (Job × Stage) × World σ)
    (s : Site σ) : Site σ :=
  let (worker, world) := f s.worker s.world
  ⟨world, worker⟩

def passUntil (p : Pipeline σ) (instant : Rat) (s : Site σ) : Site σ :=
  s.onWorker (Worker.pass (workerWork p) instant)

def sleep (p : Pipeline σ) (seconds : Rat) (s : Site σ) : Site σ :=
  s.passUntil p (s.worker.clock + seconds)

/-- Gives the worker an order and lets it run as far as it can without time passing. -/
def order (p : Pipeline σ) (f : Worker Job (Job × Stage) → Worker Job (Job × Stage))
    (s : Site σ) : Site σ :=
  s.onWorker fun k w => (f k).settle (workerWork p) w

def launch (p : Pipeline σ) (s : Site σ) : Site σ :=
  s.onWorker fun k w =>
    let (k, w) := k.launch (workerWork p) w
    k.settle (workerWork p) w

def work (p : Pipeline σ) : Work (Site σ) Job (Job × Stage) IndexReport :=
  p.work Site.world withWorld (passUntil p)

def ingest (p : Pipeline σ) (j : Job) : Action (Site σ) IndexReport := fun s =>
  match (work p).begin j s with
  | (.finished outcome, s) => (outcome, s)
  | (.yielded rest, s) => (work p).resume rest s
  | (.sleeping seconds rest, s) => (work p).resume rest (s.sleep p seconds)

def ingestBatch (p : Pipeline σ) (uris : List String) (o : IndexOptions)
    (chunking : Option ChunkOptions) (limit cores : Option Int) :
    Action (Site σ) BatchReport := fun s =>
  match batchPermits limit cores with
  | .error f => (.error f, s)
  | .ok permits =>
      let (report, s) := runBatch (work p) uris o chunking permits s.worker.clock s
      (.ok report, s)

end Site

end Retrieval
