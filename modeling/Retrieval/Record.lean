import Retrieval.Metadata
import Retrieval.Schema.Reader

/-!
# Records

What a store keeps of a chunk: its vector, its text, metadata and where it comes from. A match is a
record with its score, which is higher the closer the record.
-/

namespace Retrieval

open Schema

abbrev Embedding := List Float

structure Record where
  id : String
  vector : Embedding
  text : String
  metadata : Option Fields
  sourceUri : Option String
  docId : Option String
  chunkId : Option String
  tenantId : Option String
  versionId : Option String
deriving Inhabited

namespace Record

def reference (name : String) (fields : Fields) : Checked (Option String) :=
  optionalField name none (Reader.optional Reader.text) fields

def read (fields : Fields) : Checked Record :=
  Record.mk <$> required "id" Reader.text fields <*>
    required "vector" (Reader.list Reader.real) fields <*> required "text" Reader.text fields <*>
    optionalField "metadata" none (Reader.optional Reader.metadata) fields <*>
    reference "source_uri" fields <*> reference "doc_id" fields <*>
    reference "chunk_id" fields <*> reference "tenant_id" fields <*>
    reference "version_id" fields

def toFields (r : Record) : Fields :=
  [("id", .text r.id), ("vector", .list (r.vector.map .real)), ("text", .text r.text),
    ("metadata", .ofOption .map r.metadata), ("source_uri", .ofOption .text r.sourceUri),
    ("doc_id", .ofOption .text r.docId), ("chunk_id", .ofOption .text r.chunkId),
    ("tenant_id", .ofOption .text r.tenantId), ("version_id", .ofOption .text r.versionId)]

def fields (r : Record) : Fields := r.metadata.getD []

end Record

structure Match where
  record : Record
  score : Float
deriving Inhabited

namespace Match

def read (fields : Fields) : Checked Match :=
  Match.mk <$> required "record" (Reader.record "VectorRecord" Record.read) fields <*>
    required "score" Reader.real fields

def toFields (m : Match) : Fields :=
  [("record", .map m.record.toFields), ("score", .real m.score)]

end Match

end Retrieval
