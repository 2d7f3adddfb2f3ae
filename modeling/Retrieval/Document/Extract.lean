import Retrieval.Document.Basic
import Retrieval.Effect.Action
import Retrieval.Text.Utf8

/-!
# Extracting the text of a document

An extractor reads the text of documents of certain kinds. Plain texts are decoded as they are;
pages are decoded and reduced to their main content, if any is found. A router picks the first
extractor for a document's kind.
-/

namespace Retrieval

structure Extractor (ω : Type) where
  supports : (mimeType : String) → Bool
  extract : Document → Action ω String

namespace Extractor

variable {ω : Type}

def plainName : String := "plain-text"
def pageName : String := "html"
def routerName : String := "mime-router"

def decode (name : String) (d : Document) : Outcome String :=
  match Text.Utf8.decodeMarked d.content with
  | .ok text => .ok (String.ofList text)
  | .error defect => .error (.fromProvider .extraction name
      (d.sourceUri ++ " is not valid UTF-8: " ++ defect.text))

def isPlain (mimeType : String) : Bool :=
  mimeType.startsWith "text/" || mimeType == "application/json" ||
    mimeType == Document.unknownMimeType

def isPage (mimeType : String) : Bool :=
  mimeType == "text/html" || mimeType == "application/xhtml+xml"

/-- Decodes documents of any kind, though it stands only for texts. -/
def plain : Extractor ω := ⟨isPlain, fun d => decode plainName d⟩

/-- What of a page counts besides its running text. -/
structure PageParts where
  comments : Bool
  tables : Bool

/-- Keeps the main content of a page, or the whole page if there is none. -/
def page (mainContent : PageParts → String → Action ω (Option String)) : Extractor ω where
  supports := isPage
  extract d := do
    let text ← decode pageName d
    match ← mainContent ⟨false, true⟩ text with
    | some content => return if content.isEmpty then text else content
    | none => return text

def choose (extractors : List (Extractor ω)) (fallback : Option (Extractor ω))
    (mimeType : String) : Option (Extractor ω) :=
  (extractors.find? (·.supports mimeType)).or fallback

def routed (extractors : List (Extractor ω)) (fallback : Option (Extractor ω)) : Extractor ω where
  supports mimeType := fallback.isSome || extractors.any (·.supports mimeType)
  extract d :=
    match choose extractors fallback d.mimeType with
    | some e => e.extract d
    | none => throw (.fromProvider .extraction routerName
        ("No extractor for mime type '" ++ d.mimeType ++ "'"))

end Extractor

end Retrieval
