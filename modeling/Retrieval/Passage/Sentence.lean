import Retrieval.Passage.Run
import Retrieval.Text.Word

/-!
# Sentences

A sentence ends with a run of characters closed by a full stop, an exclamation mark or a question
mark. The full stop of a listed abbreviation is masked first, one abbreviation after the other, and
so ends nothing; masking keeps every position. The abbreviations are a set, so they are masked in
any order, which is the same for all texts.
-/

namespace Retrieval.Sentence

open Text

def abbreviations : List (List Char) :=
  ["Dr", "Mr", "Mrs", "Ms", "Prof", "Jr", "Sr", "St", "Ave", "Vol", "No", "vs", "etc", "approx",
    "dept", "est", "inc", "ltd", "co", "i.e", "e.g"].map String.toList

/-- An order in which the abbreviations are masked. -/
structure Masking where
  order : List (List Char)
  perm : order.Perm abbreviations

def Masking.standard : Masking := ⟨abbreviations, .refl _⟩

/-- What is written over a masked full stop: it is neither a terminator nor blank. -/
def maskChar : Char := Char.ofNat 0

/-- `before`, read backwards, ends with the word `abbreviation`, which starts at a word boundary. -/
def closesWith (abbreviation before : List Char) : Bool :=
  abbreviation.reverse.isPrefixOf before &&
    match before.drop abbreviation.length with
    | [] => true
    | c :: _ => !isWordChar c

/-- Masks the full stops behind `abbreviation`; `before` is the text so far, last character
first. -/
def maskFrom (abbreviation before : List Char) : List Char → List Char
  | [] => []
  | c :: rest =>
      (if c == '.' && closesWith abbreviation before then maskChar else c) ::
        maskFrom abbreviation (c :: before) rest

def mask (order : List (List Char)) (text : List Char) : List Char :=
  order.foldl (fun masked abbreviation => maskFrom abbreviation [] masked) text

theorem length_maskFrom (abbreviation before text : List Char) :
    (maskFrom abbreviation before text).length = text.length := by
  induction text generalizing before with
  | nil => rfl
  | cons c rest ih => simp [maskFrom, ih]

@[simp] theorem length_mask (order : List (List Char)) (text : List Char) :
    (mask order text).length = text.length := by
  induction order generalizing text with
  | nil => rfl
  | cons a order ih => simp [mask, List.foldl_cons] at ih ⊢; rw [ih, length_maskFrom]

def isTerminator (c : Char) : Bool := c == '.' || c == '!' || c == '?'

def closes (run : Run) : Bool := run.body.getLast?.any isTerminator

def spansBy (order : List (List Char)) (text : List Char) : List Span :=
  Run.group closes (Run.ofText (mask order text))

def spansWithin (masking : Masking) (range : Span) (text : List Char) : List Span :=
  (spansBy masking.order (range.slice text)).map (Span.shift range.start)

def spans (masking : Masking) (text : List Char) : List Span := spansBy masking.order text

end Retrieval.Sentence
