import Retrieval.Config.Settings
import Retrieval.Effect.Remote
import Retrieval.Embedding.Basic

/-!
# Embedding by a remote service

The service takes a limited number of texts at a time, so longer lists are sent in slices. The items
of an answer say which text of the slice they belong to, and are put in that order.
-/

namespace Retrieval

structure EmbeddingItem where
  index : Int
  vector : Embedding
deriving Inhabited

structure EmbeddingModel where
  name : String
  label : String
  hasKey : Bool
deriving DecidableEq, Repr

namespace EmbeddingModel

def standardName : String := "text-embedding-3-small"

def dimensions : List (String × Nat) :=
  [("text-embedding-3-small", 1536), ("text-embedding-3-large", 3072),
    ("text-embedding-ada-002", 1536), ("BAAI/bge-base-en-v1.5", 768),
    ("BAAI/bge-large-en-v1.5", 1024), ("intfloat/multilingual-e5-large-instruct", 1024)]

def dimension (m : EmbeddingModel) : Nat := (dimensions.lookup m.name).getD 768

def ofSettings (s : Settings) : EmbeddingModel where
  name := if s.openaiEmbeddingModel.isEmpty then standardName else s.openaiEmbeddingModel
  label := if s.openaiBaseUrl.isEmpty then "openai_embedding" else "openai-compatible_embedding"
  hasKey := !s.openaiApiKey.isEmpty

/-- How many texts the service takes in one call. -/
def sliceSize : Nat := 2048

/-- A list in consecutive slices; only the last may be short. -/
def slices {α : Type} (size : Nat) (items : List α) : List (List α) :=
  if items.isEmpty || size = 0 then []
  else items.take size :: slices size (items.drop size)
termination_by items.length
decreasing_by
  rename_i h
  simp only [Bool.or_eq_true, List.isEmpty_iff, decide_eq_true_eq, not_or] at h
  have := List.length_pos_iff.2 h.1
  rw [List.length_drop]
  omega

def inOrder (items : List EmbeddingItem) : List Embedding :=
  (items.mergeSort fun a b => a.index ≤ b.index).map (·.vector)

variable {ω : Type}

def embedSlice (m : EmbeddingModel)
    (call : (model : String) → List String → Remote.Call ω (List EmbeddingItem))
    (texts : List String) : Action ω (List Embedding) := fun w =>
  match call m.name texts w with
  | (.ok items, w) => (.ok (inOrder items), w)
  | (.error failure, w) => (.error (failure.toFault m.label), w)

def embedder (m : EmbeddingModel)
    (call : (model : String) → List String → Remote.Call ω (List EmbeddingItem)) : Embedder ω where
  name := m.label
  embed texts := do
    let vectors := (← (slices sliceSize texts).mapM (m.embedSlice call)).flatten
    if vectors.length = texts.length then return vectors
    else throw (miscounted m.label texts.length vectors.length)

def embedOne (e : Embedder ω) (text : String) : Action ω Embedding := do
  match ← e.embed [text] with
  | [vector] => return vector
  | vectors => throw (miscounted e.name 1 vectors.length)

end EmbeddingModel

end Retrieval
