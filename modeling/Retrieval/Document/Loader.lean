import Retrieval.Document.Basic
import Retrieval.Effect.Action

/-!
# Loading documents

A loader fetches the document behind an address. Fetching starts with a request, after which the
loader may take some time before the document, or a fault, is there. A composite loader hands an
address to the first of its loaders that supports it.
-/

namespace Retrieval

structure Loader (ω : Type) where
  supports : (uri : String) → Bool
  /-- Asks for a document; the answer says how many seconds it takes. -/
  request : (uri : String) → StateM ω Rat
  receive : (uri : String) → Action ω Document

namespace Loader

variable {ω : Type}

def immediate (supports : String → Bool) (fetch : String → Action ω Document) : Loader ω :=
  ⟨supports, fun _ => pure 0, fetch⟩

def load (l : Loader ω) (uri : String) : Action ω Document := do
  let _ ← l.request uri
  l.receive uri

def compositeName : String := "composite-loader"

def composite (loaders : List (Loader ω)) : Loader ω where
  supports uri := loaders.any (·.supports uri)
  request uri :=
    match loaders.find? (·.supports uri) with
    | some l => l.request uri
    | none => pure 0
  receive uri :=
    match loaders.find? (·.supports uri) with
    | some l => l.receive uri
    | none => throw (.fromProvider .documentLoad compositeName
        ("No loader supports '" ++ uri ++ "'"))

end Loader

end Retrieval
