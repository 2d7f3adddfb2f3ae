import Retrieval.Passage.Chunk
import Retrieval.Record

/-!
# What a search finds

A source is a chunk found for a query, with its score and where it comes from.
-/

namespace Retrieval

structure Source where
  chunk : Chunk
  score : Float
  sourceUri : Option String
  docId : Option String
deriving Inhabited

def Source.read (fields : Fields) : Schema.Checked Source :=
  Source.mk <$> Schema.required "chunk" (Schema.Reader.record "Chunk" Chunk.read) fields <*>
    Schema.required "score" Schema.Reader.real fields <*>
    Record.reference "source_uri" fields <*> Record.reference "doc_id" fields

/-- The sources found, best first, and the vector they were searched with. -/
structure Findings where
  sources : List Source
  queryVector : Embedding
deriving Inhabited

end Retrieval
