import Retrieval.Config.Roster
import Retrieval.Document.FileTree
import Retrieval.Text.Utf8

/-!
# Deployments

A deployment is what the settings and the configuration file together ask for: the kind of store,
the tenants, and how texts are cut if nothing else is said.
-/

namespace Retrieval

structure Deployment where
  settings : Settings
  config : Fields
  storeKind : Settings.StoreKind
  tenants : List Tenant
  chunking : ChunkOptions

namespace Deployment

def build (s : Settings) (content : Option String) : Outcome Deployment := do
  let config ← Config.load content s
  let storeKind ← s.storeKind
  let tenants ← Config.tenants config
  let chunking ← s.chunkOptions
  return ⟨s, config, storeKind, tenants, chunking⟩

/-- The text of a configuration file. A character cut short at its end is told apart from the bytes
before it. -/
def configText (content : List UInt8) : Outcome String :=
  match Text.Utf8.decode content with
  | .ok text => .ok (String.ofList text)
  | .error defect =>
      let defect := if defect.reason = .cutShort then { defect with position := 0 } else defect
      .error { kind := .undecodable, message := defect.text }

def ofFiles (tree : FileTree) (s : Settings) : Outcome Deployment := do
  let path := FilePath.ofText s.configPath.toList
  match tree.find path with
  | .missing => build s none
  | .file content => build s (some (← configText content))
  | .directory => throw (FileTree.isADirectory path)
  | .tooLong => throw (FileTree.tooLong path)

/-- The tenants with the standard one before them. -/
def registry (d : Deployment) : Registry := .new true d.tenants

def parts : List String :=
  ["chunk_options", "composer", "config", "embedding_router", "pipeline", "quota_enforcer",
    "rag_service", "retriever", "settings", "tenant_manager", "vector_store", "version_manager",
    "worker"]

end Deployment

end Retrieval
