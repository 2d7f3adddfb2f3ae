import Retrieval.Text.Blank

/-!
# Spans of a text

A span is a half-open range of character positions. Its slice is the part of the text it covers.
-/

namespace Retrieval

/-- The positions from `start` up to, but not including, `stop`. -/
structure Span where
  start : Nat
  stop : Nat
deriving DecidableEq, Repr, Inhabited

namespace Span

def length (s : Span) : Nat := s.stop - s.start

def slice (s : Span) (text : List Char) : List Char := (text.drop s.start).take s.length

def shift (n : Nat) (s : Span) : Span := ⟨s.start + n, s.stop + n⟩

@[simp] theorem length_shift (n : Nat) (s : Span) : (s.shift n).length = s.length := by
  simp [shift, length, Nat.add_sub_add_right]

theorem length_slice (s : Span) {text : List Char} (h : s.stop ≤ text.length) :
    (s.slice text).length = s.length := by
  simp only [slice, length, List.length_take, List.length_drop]
  omega

/-- The smallest span over a list of spans given in order. -/
def cover? : List Span → Option Span
  | [] => none
  | s :: rest => some ⟨s.start, ((s :: rest).getLast (List.cons_ne_nil _ _)).stop⟩

end Span

end Retrieval
