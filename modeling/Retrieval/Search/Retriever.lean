import Retrieval.Embedding.Basic
import Retrieval.Search.Basic
import Retrieval.Store.Basic
import Retrieval.Tenant.Id
import Retrieval.Text.Blank

/-!
# Retrieval for a tenant

A query is embedded and looked up among the records of its tenant; a filter can only narrow the
search. A record whose positions are missing or make no sense is taken as a whole.
-/

namespace Retrieval

structure Retriever (ω : Type) where
  route : Routing ω
  store : VectorStore ω

structure Search where
  query : String
  tenant : String
  topK : Int
  filter : Option Filter
  collection : Option String

namespace Source

/-- The positions of a text of some length, if they are usable, else those of the whole text. -/
def positions (start stop : Option Int) (length : Nat) : Nat × Nat :=
  match start, stop with
  | some first, some last =>
      if 0 ≤ first ∧ first < last then (first.toNat, last.toNat) else (0, max length 1)
  | _, _ => (0, max length 1)

def ofMatch (m : Match) : Outcome Source := do
  let r := m.record
  let (start, stop) := positions (← r.fields.int? Key.startIndex) (← r.fields.int? Key.endIndex)
    r.text.length
  return {
    chunk := ⟨(given r.chunkId).getD r.id, r.text, start, stop,
      r.metadata.filter (!·.isEmpty)⟩
    score := m.score
    sourceUri := ← r.fields.reference r.sourceUri Key.sourceUri
    docId := ← r.fields.reference r.docId Key.docId }

end Source

namespace Search

/-- The filter of a search: the tenant's records, narrowed by the filter asked for. -/
def scope (s : Search) : Filter :=
  match s.filter with
  | some f => .all [.ofTenant s.tenant, f]
  | none => .ofTenant s.tenant

def lookup (s : Search) (vector : Embedding) : Query where
  vector := some vector
  topK := s.topK
  filter := some s.scope
  tenant := some s.tenant
  collection := s.collection

def checkTenant (s : Search) : Outcome String :=
  if (Text.trim s.tenant.toList).isEmpty then .error (.badValue "tenant_id must not be empty")
  else Tenant.checkId (some s.tenant)

end Search

namespace Retriever

variable {ω : Type}

def embedQuery (r : Retriever ω) (s : Search) : Action ω Embedding := do
  let embedder := r.route.select s.tenant
  match ← embedder.embed [s.query] with
  | vector :: _ => return vector
  | [] => throw (.fromProvider .embeddingContract embedder.name
      "Embedding provider returned no vector for the query")

def retrieve (r : Retriever ω) (s : Search) : Action ω Findings := do
  let _ ← s.checkTenant
  let vector ← r.embedQuery s
  let found ← r.store.query (s.lookup vector)
  let sources ← (found.mapM Source.ofMatch : Outcome (List Source))
  return ⟨sources, vector⟩

end Retriever

end Retrieval
