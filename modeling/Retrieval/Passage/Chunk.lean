import Retrieval.Metadata
import Retrieval.Passage.Strategy

/-!
# Chunks

A chunk is a passage of a text with an id of its own, the positions it was cut from, and metadata.
Ids carry a serial number that no other chunk has.
-/

namespace Retrieval

open Schema Text

structure Chunk where
  id : String
  text : String
  start : Nat
  stop : Nat
  metadata : Option Fields
deriving Inhabited

namespace Chunk

def spanRule (start stop : Nat) : String :=
  match (do return ((← (Value.int start).toText), (← (Value.int stop).toText)) :
      Outcome (String × String)) with
  | .ok (start, stop) => "start_index (" ++ start ++ ") must be < end_index (" ++ stop ++ ")"
  | .error f => f.message

/-- Chunks whose span is empty or reversed are rejected, once all fields are fine. -/
def check (c : Chunk) : Checked Chunk :=
  if c.start < c.stop then .good c else .flaw (.rule (spanRule c.start c.stop))

def read (fields : Fields) : Checked Chunk :=
  Checked.andThen
    (Chunk.mk <$> required "id" Reader.text fields <*> required "text" Reader.text fields <*>
      required "start_index" Reader.nat fields <*> required "end_index" Reader.nat fields <*>
      optionalField "metadata" none (Reader.optional Reader.metadata) fields)
    check

def toFields (c : Chunk) : Fields :=
  [("id", .text c.id), ("text", .text c.text), ("start_index", .int c.start),
    ("end_index", .int c.stop), ("metadata", .ofOption .map c.metadata)]

theorem check_eq_good {c d : Chunk} : c.check = .good d ↔ c = d ∧ c.start < c.stop := by
  unfold check
  split
  · next h => simp [h]
  · next h => simp [Checked.flaw, h]

def serialText (serial : Nat) : String := String.ofList (hexDigits 32 serial)

def ofDraft (index serial : Nat) (d : Draft) : Chunk where
  id := "chunk_" ++ toString index ++ "_" ++ serialText serial
  text := String.ofList d.body
  start := d.span.start
  stop := d.span.stop
  metadata :=
    let fields : Fields := [(Key.chunkIndex, .int index), (Key.strategy, .text d.strategy.name)]
    match d.title with
    | some (c :: rest) => some (fields.set Key.heading (.text (String.ofList (c :: rest))))
    | _ => some fields

/-- Numbers the drafts from `index` on and gives them serials from `serial` on. -/
def ofDrafts : (index serial : Nat) → List Draft → List Chunk
  | _, _, [] => []
  | index, serial, d :: later => ofDraft index serial d :: ofDrafts (index + 1) (serial + 1) later

@[simp] theorem length_ofDrafts (index serial : Nat) (drafts : List Draft) :
    (ofDrafts index serial drafts).length = drafts.length := by
  induction drafts generalizing index serial with
  | nil => rfl
  | cons d later ih => simp [ofDrafts, ih]

end Chunk

def Strategy.chunks (strategy : Strategy) (options : ChunkOptions) (serial : Nat) (text : String)
    (masking : Sentence.Masking := .standard) : List Chunk :=
  Chunk.ofDrafts 0 serial (strategy.drafts options text.toList masking)

def Chunk.cut (registry : StrategyRegistry) (options : ChunkOptions) (serial : Nat)
    (text : String) (masking : Sentence.Masking := .standard) : Outcome (List Chunk) :=
  (registry.select options.strategy).map fun strategy =>
    strategy.chunks options serial text masking

end Retrieval
