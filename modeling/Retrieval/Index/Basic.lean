import Retrieval.Schema.Reader

/-!
# Indexing: what is asked for and what is reported

Options say for whom and under which identity chunks are indexed. A report counts what was written
and holds the errors, if there were any.
-/

namespace Retrieval

open Schema

inductive UpdateMode
  | upsert
  | update
deriving DecidableEq, Repr

def UpdateMode.name : UpdateMode → String
  | .upsert => "upsert"
  | .update => "update"

def UpdateMode.reader : Reader UpdateMode :=
  Reader.choice [("upsert", .upsert), ("update", .update)]

structure IndexOptions where
  tenantId : String
  docId : Option String
  versionId : Option String
  collection : Option String
  mode : UpdateMode
  deleteOldVersions : Bool
deriving DecidableEq, Repr

namespace IndexOptions

def read (fields : Fields) : Checked IndexOptions :=
  IndexOptions.mk <$> required "tenant_id" Reader.text fields <*>
    optionalField "doc_id" none (Reader.optional Reader.text) fields <*>
    optionalField "version_id" none (Reader.optional Reader.text) fields <*>
    optionalField "collection_name" none (Reader.optional Reader.text) fields <*>
    optionalField "update_mode" .upsert UpdateMode.reader fields <*>
    optionalField "delete_old_versions" false Reader.bool fields

def toFields (o : IndexOptions) : Fields :=
  [("tenant_id", .text o.tenantId), ("doc_id", .ofOption .text o.docId),
    ("version_id", .ofOption .text o.versionId),
    ("collection_name", .ofOption .text o.collection), ("update_mode", .text o.mode.name),
    ("delete_old_versions", .bool o.deleteOldVersions)]

end IndexOptions

structure IndexReport where
  chunksIndexed : Int
  vectorsCreated : Int
  errors : Option (List String)
deriving DecidableEq, Repr

namespace IndexReport

def read (fields : Fields) : Checked IndexReport :=
  IndexReport.mk <$> optionalField "chunks_indexed" 0 Reader.int fields <*>
    optionalField "vectors_created" 0 Reader.int fields <*>
    optionalField "errors" none (Reader.optional (Reader.list Reader.text)) fields

def toFields (r : IndexReport) : Fields :=
  [("chunks_indexed", .int r.chunksIndexed), ("vectors_created", .int r.vectorsCreated),
    ("errors", .ofOption (fun errors => .list (errors.map .text)) r.errors)]

def succeeded (r : IndexReport) : Bool := (r.errors.getD []).isEmpty

def failed (errors : List String) : IndexReport := ⟨0, 0, some errors⟩

end IndexReport

structure BatchFailure where
  sourceUri : String
  message : String
deriving DecidableEq, Repr

def BatchFailure.read (fields : Fields) : Checked BatchFailure :=
  BatchFailure.mk <$> required "source_uri" Reader.text fields <*>
    required "error_message" Reader.text fields

def BatchFailure.toFields (f : BatchFailure) : Fields :=
  [("source_uri", .text f.sourceUri), ("error_message", .text f.message)]

structure BatchReport where
  results : List IndexReport
  errors : List BatchFailure
deriving DecidableEq, Repr

namespace BatchReport

def read (fields : Fields) : Checked BatchReport :=
  BatchReport.mk <$>
    optionalField "results" [] (Reader.list (Reader.record "IndexResult" IndexReport.read))
      fields <*>
    optionalField "errors" []
      (Reader.list (Reader.record "BatchIngestionError" BatchFailure.read)) fields

def toFields (b : BatchReport) : Fields :=
  [("results", .list (b.results.map fun r => .map r.toFields)),
    ("errors", .list (b.errors.map fun f => .map f.toFields))]

def totalChunks (b : BatchReport) : Int := b.results.foldl (fun n r => n + r.chunksIndexed) 0

def totalVectors (b : BatchReport) : Int := b.results.foldl (fun n r => n + r.vectorsCreated) 0

end BatchReport

end Retrieval
