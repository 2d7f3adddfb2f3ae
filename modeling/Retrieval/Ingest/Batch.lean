import Retrieval.Ingest.Pipeline
import Retrieval.Schedule.Fanout

/-!
# Ingesting many documents

The documents of a batch are ingested side by side. One that fails is told in the report and stops
no other; reports and failures stand in the order in which they came in.
-/

namespace Retrieval

/-- What a batch does for each document. The outer world may do other things as time passes. -/
def Pipeline.work {σ ν : Type} (p : Pipeline σ) (part : ν → World σ) (put : World σ → ν → ν)
    (elapse : Rat → ν → ν) : Work ν Job (Job × Stage) IndexReport where
  begin j w :=
    let (stage, inner) := p.start j (part w)
    match stage with
    | .loading o seconds =>
        if 0 < seconds then (.sleeping seconds (j, .loading o seconds), put inner w)
        else
          let (outcome, inner) := p.finish j (.loading o seconds) inner
          (.finished outcome, put inner w)
    | stage =>
        let (outcome, inner) := p.finish j stage inner
        (.finished outcome, put inner w)
  resume rest w :=
    let (outcome, inner) := p.finish rest.1 rest.2 (part w)
    (outcome, put inner w)
  elapse := elapse

namespace BatchReport

/-- The report of a batch whose outcomes came in this order. -/
def ofOutcomes (uris : List String) (outcomes : List (Nat × Outcome IndexReport)) :
    BatchReport where
  results := outcomes.filterMap fun
    | (_, .ok report) => some report
    | (_, .error _) => none
  errors := outcomes.filterMap fun
    | (_, .ok _) => none
    | (number, .error f) => some ⟨uris.getD number "", f.text⟩

end BatchReport

def batchJobs (uris : List String) (o : IndexOptions) (chunking : Option ChunkOptions) : List Job :=
  uris.map fun uri => ⟨uri, o, chunking⟩

/-- The permits of a batch; asking for none leaves the choice to the host. -/
def batchPermits (limit cores : Option Int) : Outcome Nat :=
  match limit with
  | none | some 0 => .ok (defaultPermits cores)
  | some n => checkPermits n

def runBatch {ν : Type} (w : Work ν Job (Job × Stage) IndexReport) (uris : List String)
    (o : IndexOptions) (chunking : Option ChunkOptions) (permits : Nat) (clock : Rat) (world : ν) :
    BatchReport × ν :=
  let f := Fanout.run w (batchJobs uris o chunking) permits true clock world
  (.ofOutcomes uris f.outcomes, f.world)

end Retrieval
