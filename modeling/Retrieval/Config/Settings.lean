import Retrieval.Passage.Strategy
import Retrieval.Schema.Reader
import Retrieval.Text.Search

/-!
# Settings

Settings come from the environment, where names may be written in either case, and from overrides,
which win. An override must be a known setting.
-/

namespace Retrieval

open Schema

structure Settings where
  openaiApiKey : String
  openaiBaseUrl : String
  openaiEmbeddingModel : String
  openaiChatModel : String
  vectorStore : String
  persistDirectory : String
  collection : String
  chunkMaxSize : Int
  chunkOverlap : Int
  chunkStrategy : String
  retrievalTopK : Int
  ingestMaxConcurrency : Int
  workerQueueSize : Int
  configPath : String
  environment : String
  logLevel : String
deriving DecidableEq, Repr

namespace Settings

def text (name default : String) (fields : Fields) : Checked String :=
  optionalField name default Reader.text fields

def number (name : String) (default : Int) (fields : Fields) : Checked Int :=
  optionalField name default Reader.int fields

def readKnown (fields : Fields) : Checked Settings :=
  Settings.mk <$> text "openai_api_key" "" fields <*> text "openai_base_url" "" fields <*>
    text "openai_embedding_model" "" fields <*> text "openai_chat_model" "" fields <*>
    text "vector_store" "chromadb" fields <*>
    text "chromadb_persist_dir" "./data/chromadb" fields <*>
    text "chromadb_collection" "tenantrag" fields <*> number "chunk_max_size" 1000 fields <*>
    number "chunk_overlap" 200 fields <*> text "chunk_strategy" "fixed_size" fields <*>
    number "retrieval_top_k" 5 fields <*> number "ingest_max_concurrency" 0 fields <*>
    number "worker_queue_size" 100 fields <*>
    text "tenants_config_path" "config/config.yaml" fields <*>
    text "app_env" "development" fields <*> text "log_level" "INFO" fields

def toFields (s : Settings) : Fields :=
  [("openai_api_key", .text s.openaiApiKey), ("openai_base_url", .text s.openaiBaseUrl),
    ("openai_embedding_model", .text s.openaiEmbeddingModel),
    ("openai_chat_model", .text s.openaiChatModel), ("vector_store", .text s.vectorStore),
    ("chromadb_persist_dir", .text s.persistDirectory),
    ("chromadb_collection", .text s.collection), ("chunk_max_size", .int s.chunkMaxSize),
    ("chunk_overlap", .int s.chunkOverlap), ("chunk_strategy", .text s.chunkStrategy),
    ("retrieval_top_k", .int s.retrievalTopK),
    ("ingest_max_concurrency", .int s.ingestMaxConcurrency),
    ("worker_queue_size", .int s.workerQueueSize), ("tenants_config_path", .text s.configPath),
    ("app_env", .text s.environment), ("log_level", .text s.logLevel)]

def standard : Settings where
  openaiApiKey := ""
  openaiBaseUrl := ""
  openaiEmbeddingModel := ""
  openaiChatModel := ""
  vectorStore := "chromadb"
  persistDirectory := "./data/chromadb"
  collection := "tenantrag"
  chunkMaxSize := 1000
  chunkOverlap := 200
  chunkStrategy := "fixed_size"
  retrievalTopK := 5
  ingestMaxConcurrency := 0
  workerQueueSize := 100
  configPath := "config/config.yaml"
  environment := "development"
  logLevel := "INFO"

def names : List String := standard.toFields.keys

def checkNames : List String → Checked Unit
  | [] => .good ()
  | name :: rest =>
      if names.contains name then checkNames rest
      else
        Checked.ap ((Checked.under (.field name) (.flaw .unknownField)).map fun (_ : Unit) _ => ())
          (checkNames rest)

/-- Environment variables as settings; those that name no setting are left out. -/
def ofEnvironment (env : Table String) : Fields :=
  env.foldl (fun acc entry =>
    let name := Text.lower entry.1
    if names.contains name then acc.set name (.text entry.2) else acc) []

def load (env : Table String) (overrides : Fields) : Outcome Settings :=
  (Checked.ap ((readKnown ((ofEnvironment env).update overrides)).map fun s (_ : Unit) => s)
    (checkNames overrides.keys)).toOutcome "Settings"

def providers (s : Settings) : List String := if s.openaiApiKey.isEmpty then [] else ["openai"]

def unknownStrategy (name : String) : Fault :=
  .configuration ("Unknown chunk strategy '" ++ name ++ "'")

def chunkOptions (s : Settings) : Outcome ChunkOptions :=
  match Strategy.ofName? s.chunkStrategy with
  | none => .error (unknownStrategy s.chunkStrategy)
  | some strategy =>
      (ChunkOptions.read [("max_size", .int s.chunkMaxSize), ("overlap", .int s.chunkOverlap),
        ("strategy", .text strategy.name)]).toOutcome "ChunkOptions"

inductive StoreKind
  | memory
  | chroma
deriving DecidableEq, Repr

def StoreKind.name : StoreKind → String
  | .memory => "memory"
  | .chroma => "chromadb"

def storeKind (s : Settings) : Outcome StoreKind :=
  match [StoreKind.memory, .chroma].find? (·.name == Text.lower s.vectorStore) with
  | some kind => .ok kind
  | none => .error (.configuration ("Unknown vector store '" ++ s.vectorStore ++ "'"))

end Settings

end Retrieval
