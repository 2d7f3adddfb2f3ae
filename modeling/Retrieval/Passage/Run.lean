import Retrieval.Passage.Span

/-!
# Runs of a text

A text is some blanks followed by runs: maximal stretches of characters that are not blank, each
with the blanks behind it. Neighbouring runs are joined into larger units by a test on the earlier
one, which is how sentences and paragraphs are cut.
-/

namespace Retrieval

open Text

/-- A stretch of characters that are not blank, and the blanks up to the next one. -/
structure Run where
  start : Nat
  body : List Char
  gap : List Char
deriving DecidableEq, Repr

namespace Run

def stop (r : Run) : Nat := r.start + r.body.length

def span (r : Run) : Span := ⟨r.start, r.stop⟩

/-- The blanks that open a text, and its runs; the first character stands at `position`. -/
def cut (position : Nat) : List Char → List Char × List Run
  | [] => ([], [])
  | c :: rest =>
      let (lead, runs) := cut (position + 1) rest
      if isBlank c then (c :: lead, runs)
      else match lead, runs with
        | [], run :: later => ([], { run with start := position, body := c :: run.body } :: later)
        | lead, runs => ([], ⟨position, [c], lead⟩ :: runs)

def ofText (text : List Char) : List Run := (cut 0 text).2

/-- Nothing of the text is lost. -/
theorem cut_flatten (position : Nat) (text : List Char) :
    (cut position text).1 ++ (cut position text).2.flatMap (fun r => r.body ++ r.gap) = text := by
  induction text generalizing position with
  | nil => rfl
  | cons c rest ih =>
      have h := ih (position + 1)
      simp only [cut]
      by_cases hc : isBlank c = true
      · simp [hc, h]
      · cases hl : (cut (position + 1) rest).1 with
        | nil =>
            cases hr : (cut (position + 1) rest).2 with
            | nil => simp [hc, hl, hr] at h ⊢; exact h
            | cons run later => simp [hc, hl, hr] at h ⊢; exact h
        | cons b lead => simp [hc, hl] at h ⊢; exact h

/-- Joins runs into spans: a new span opens behind a run that `closes`. -/
def group (closes : Run → Bool) : List Run → List Span
  | [] => []
  | run :: later =>
      match group closes later with
      | [] => [run.span]
      | s :: spans =>
          if closes run then run.span :: s :: spans else ⟨run.start, s.stop⟩ :: spans

end Run

end Retrieval
