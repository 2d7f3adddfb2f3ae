import Retrieval.Passage.Packing
import Retrieval.Passage.Paragraph
import Retrieval.Passage.Section
import Retrieval.Passage.Window
import Retrieval.Schema.Reader

/-!
# Chunking strategies

A text is cut into drafts by one of four strategies. Each draft knows its span of the text, its body
without blanks at either end, and which strategy made it.
-/

namespace Retrieval

open Schema Text

inductive Strategy
  | fixedSize
  | sentence
  | paragraph
  | markdownAware
deriving DecidableEq, Repr, Inhabited

def Strategy.name : Strategy → String
  | .fixedSize => "fixed_size"
  | .sentence => "sentence"
  | .paragraph => "paragraph"
  | .markdownAware => "markdown_aware"

def Strategy.all : List Strategy := [.fixedSize, .sentence, .paragraph, .markdownAware]

def Strategy.ofName? (name : String) : Option Strategy := all.find? (·.name == name)

@[simp] theorem Strategy.ofName?_name (s : Strategy) : ofName? s.name = some s := by
  cases s <;> decide

def Strategy.reader : Reader Strategy := Reader.choice (Strategy.all.map fun s => (s.name, s))

structure ChunkOptions where
  /-- The most characters of a chunk, at least one. -/
  budget : Nat
  /-- The characters that neighbours may share. -/
  overlap : Nat
  strategy : Strategy
deriving DecidableEq, Repr

def ChunkOptions.standard : ChunkOptions := ⟨1000, 200, .fixedSize⟩

def ChunkOptions.read (fields : Fields) : Checked ChunkOptions :=
  ChunkOptions.mk <$>
    ((optionalField "max_size" 1000 (Reader.above 0) fields).map Int.toNat) <*>
    optionalField "overlap" 200 Reader.nat fields <*>
    optionalField "strategy" .fixedSize Strategy.reader fields

def ChunkOptions.toFields (o : ChunkOptions) : Fields :=
  [("max_size", .int o.budget), ("overlap", .int o.overlap), ("strategy", .text o.strategy.name)]

structure Draft where
  span : Span
  body : List Char
  strategy : Strategy
  title : Option (List Char)
deriving DecidableEq, Repr

namespace Draft

def ofRange (strategy : Strategy) (text : List Char) (range : Span) : Draft :=
  ⟨range, range.slice text, strategy, none⟩

def ofSection (text : List Char) (s : Section) : Draft :=
  ⟨s.span, trim (s.span.slice text), .markdownAware, s.title⟩

def windows (options : ChunkOptions) (text : List Char) : List Draft :=
  (Window.pieces options.budget options.overlap text).map fun (span, body) =>
    ⟨span, body, .fixedSize, none⟩

def sentences (masking : Sentence.Masking) (options : ChunkOptions) (text : List Char) :
    List Draft :=
  (Packing.pack options.budget options.overlap (Sentence.spans masking text)).map
    (ofRange .sentence text)

def paragraphs (masking : Sentence.Masking) (options : ChunkOptions) (text : List Char) :
    List Draft :=
  (Packing.pack options.budget options.overlap
    (Paragraph.units masking options.budget text)).map (ofRange .paragraph text)

/-- Text without headings is cut into windows. -/
def sections (options : ChunkOptions) (text : List Char) : List Draft :=
  match Section.ofText text with
  | [] => windows options text
  | sections => (Section.gather options.budget sections).map (ofSection text)

end Draft

def Strategy.drafts (strategy : Strategy) (options : ChunkOptions) (text : List Char)
    (masking : Sentence.Masking) : List Draft :=
  match strategy with
  | .fixedSize => Draft.windows options text
  | .sentence => Draft.sentences masking options text
  | .paragraph => Draft.paragraphs masking options text
  | .markdownAware => Draft.sections options text

structure StrategyRegistry where
  registered : List Strategy
deriving DecidableEq, Repr

namespace StrategyRegistry

def standard : StrategyRegistry := ⟨Strategy.all⟩

def register (r : StrategyRegistry) (s : Strategy) : StrategyRegistry :=
  ⟨if r.registered.contains s then r.registered else r.registered ++ [s]⟩

/-- The strategy asked for, or windows of fixed size in its place. -/
def select (r : StrategyRegistry) (wanted : Strategy) : Outcome Strategy :=
  if r.registered.contains wanted then .ok wanted
  else if r.registered.contains .fixedSize then .ok .fixedSize
  else .error (.configuration ("No chunking strategy registered for '" ++ wanted.name ++
    "' and no fixed-size fallback"))

theorem select_standard (wanted : Strategy) : standard.select wanted = .ok wanted := by
  cases wanted <;> rfl

end StrategyRegistry

end Retrieval
