import Retrieval.Store.Client

/-!
# A store behind a client

Filters are pushed down to the database as far as it can evaluate them; what a clause selects too
much is checked afterwards. Failures are told in the store's own name.
-/

namespace Retrieval

/-- What the database selects and what is left to check. -/
structure Split where
  clause : Option Where
  residual : Option Filter

namespace Split

def ofFilter : Option Filter → Outcome Split
  | none => .ok ⟨none, none⟩
  | some f => (f.pushDown false).map fun t => ⟨t.clause, if t.exact then none else some f⟩

def admits (s : Split) (r : Row) : Outcome Bool := do
  match s.residual with
  | some f => f.evaluate (Column.fields (← Column.part r.metadata))
  | none => return true

def found (s : Split) (score : Float) (r : Row) : Outcome (Option Match) := do
  if ← s.admits r then return some ⟨← r.record, score⟩ else return none

end Split

structure RemoteStore (ω : Type) where
  client : StoreClient ω
  standard : String
  /-- The collections that are open. -/
  opened : ω → List String
  markOpen : String → ω → ω

namespace RemoteStore

variable {ω : Type}

def label : String := "chromadb"

def wrap (what : String) (f : Fault) : Fault :=
  .fromProvider .retrieval label ("ChromaDB " ++ what ++ " failed: " ++ f.text)

/-- Runs an action and tells its failures in the store's name, but for those to be passed on. -/
def guarded {α : Type} (what : String) (passes : Fault → Bool) (a : Action ω α) : Action ω α :=
  fun w =>
    match a w with
    | (.error f, w) => (.error (if passes f then f else wrap what f), w)
    | done => done

/-- Opens a collection unless it is open; an empty name means the standard one. -/
def collection (s : RemoteStore ω) (name : Option String) : Action ω String := do
  let name := (given name).getD s.standard
  if (← Action.read s.opened).contains name then return name
  match ← (s.client.openCollection name false).attempt with
  | .ok () => pure ()
  | .error f => if f.kind.isBadValue then s.client.openCollection name true else throw f
  Action.change (s.markOpen name)
  return name

def upsert (s : RemoteStore ω) (records : List Record) (name : Option String) : Action ω Nat :=
  if records.isEmpty then return 0
  else guarded "upsert" (fun _ => false) do
    let target ← s.collection name
    let items ← (records.mapM Item.ofRecord : Outcome (List Item))
    s.client.upsert target items
    return records.length

def lesser (topK : Int) (available : Value) : Outcome Value :=
  match available.number? with
  | some n => .ok (if n.compare? (.ofInt topK) = some .lt then available else .int topK)
  | none => .error (.badType ("'<' not supported between instances of '" ++ available.typeName ++
      "' and 'int'"))

/-- The nearest records, best first. All of them are fetched if some are still to be checked. -/
def search (s : RemoteStore ω) (target : String) (vector : Embedding) (topK : Int)
    (split : Split) : Action ω (List Match) := do
  let available ← s.client.count target
  if available.same (.int 0) ∨ topK ≤ 0 then return []
  let count ← if split.residual.isSome then pure available else lesser topK available
  let answer ← s.client.nearest target ⟨vector, count, split.clause,
    [.documents, .metadatas, .distances, .embeddings]⟩
  let lines ← Page.nearest answer
  let found ← lines.gather fun r => do
    let score ← r.score
    let _ ← Column.part r.embedding
    split.found score r
  return (found.mergeSort fun a b => !(a.score < b.score)).take topK.toNat

def listing (s : RemoteStore ω) (target : String) (topK : Int) (split : Split) :
    Action ω (List Match) := do
  if topK ≤ 0 then return []
  let limit := if split.residual.isSome then none else some topK
  let answer ← s.client.list target ⟨limit, split.clause, [.documents, .metadatas, .embeddings]⟩
  let lines ← Page.listed answer
  let found ← lines.gather (split.found 1)
  return found.take topK.toNat

def isRetrieval (f : Fault) : Bool := f.kind.lineage.contains .retrieval

def query (s : RemoteStore ω) (q : Query) : Action ω (List Match) :=
  guarded "query" isRetrieval do
    let target ← s.collection q.collection
    let split ← Split.ofFilter q.filter
    match q.vector with
    | some vector => s.search target vector q.topK split
    | none => s.listing target q.topK split

def selected (s : RemoteStore ω) (target : String) (filter : Filter) :
    Action ω (List String) := do
  let split ← Split.ofFilter (some filter)
  let lines ← Page.marked (← s.client.list target ⟨none, split.clause, [.metadatas]⟩)
  lines.gather fun r => do
    if ← split.admits r then return some r.id.display else return none

def delete (s : RemoteStore ω) (ids : List String) (name : Option String)
    (filter : Option Filter) : Action ω Nat :=
  guarded "delete" (fun _ => false) do
    let target ← s.collection name
    if !ids.isEmpty then
      s.client.delete target ids
      return ids.length
    match filter with
    | none => return 0
    | some f =>
        let ids ← s.selected target f
        if !ids.isEmpty then s.client.delete target ids
        return ids.length

def isAvailable (s : RemoteStore ω) : Action ω Bool := do
  match ← (do s.client.count (← s.collection none)).attempt with
  | .ok _ => return true
  | .error _ => return false

def backend (s : RemoteStore ω) : VectorStore ω := ⟨label, s.upsert, s.query, s.delete⟩

end RemoteStore

end Retrieval
