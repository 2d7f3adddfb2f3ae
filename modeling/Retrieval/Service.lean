import Retrieval.Chat.Service
import Retrieval.Document.FileTree
import Retrieval.Document.Web
import Retrieval.Ingest.Site

/-!
# The service

Everything the library needs from outside, and the parts made of it.
-/

namespace Retrieval

open Time

structure Service (σ : Type) where
  loader : Loader σ
  extractor : Extractor σ
  strategies : StrategyRegistry
  route : Routing σ
  store : VectorStore σ
  model : ChatModel σ
  now : σ → Moment
  /-- Documents without a version get a new one. -/
  versioned : Bool
  /-- Tenants are held to their quotas. -/
  limited : Bool
  /-- The cores of the host, if known. -/
  cores : Option Int
  masking : Sentence.Masking := .standard

namespace Service

variable {σ : Type}

/-- Documents are files or pages of the web. -/
def documents (tree : σ → FileTree)
    (exchange : String → StateM σ (Except Web.Failure Web.Reply)) : Loader σ :=
  .composite [.file tree, .web exchange]

/-- Pages are reduced to their main content; everything else counts as plain text. -/
def texts (mainContent : Extractor.PageParts → String → Action σ (Option String)) : Extractor σ :=
  .routed [.page mainContent, .plain] (some .plain)

def indexer (s : Service σ) : Indexer σ := ⟨s.route, s.store, s.now⟩

def pipeline (s : Service σ) : Pipeline σ :=
  .ofIndexer s.loader s.extractor (.ofStrategies s.strategies s.masking) s.indexer s.versioned
    s.limited s.now

def retriever (s : Service σ) : Retriever σ := ⟨s.route, s.store⟩

/-- Nothing passes while an answer is counted. -/
def chat (s : Service σ) : ChatService σ := ⟨s.retriever, s.model, s.limited, s.now, id⟩

def versions (s : Service σ) (tenant doc : String) (collection : Option String) :
    Action σ (List Version) :=
  Version.list s.store s.now tenant doc collection

def version? (s : Service σ) (tenant doc version : String) (collection : Option String) :
    Action σ (Option Version) :=
  Version.find? s.store s.now tenant doc version collection

def newVersionId (s : Service σ) : Action (World σ) String := fun w =>
  (.ok (Version.newId (s.now w.outside) w.versionSerial),
    { w with versionSerial := w.versionSerial + 1 })

end Service

end Retrieval
