import Retrieval.Passage.Sentence

/-!
# Paragraphs

Two runs of a text belong to one paragraph unless the blanks between them hold two line ends. A
paragraph longer than a budget is given by its sentences instead.
-/

namespace Retrieval.Paragraph

def closes (run : Run) : Bool := 2 ≤ run.gap.count '\n'

def spans (text : List Char) : List Span := Run.group closes (Run.ofText text)

/-- Paragraphs of at most `budget` characters, and the sentences of longer ones. -/
def units (masking : Sentence.Masking) (budget : Nat) (text : List Char) : List Span :=
  (spans text).flatMap fun s =>
    if budget < s.length then Sentence.spansWithin masking s text else [s]

end Retrieval.Paragraph
