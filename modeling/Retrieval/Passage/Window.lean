import Retrieval.Passage.Span

/-!
# Sliding windows

A window of fixed size slides over the text. Short of the end of the text its edge falls back to
just behind the last full stop in its last hundred characters, else behind the last space in its
last fifty, but never onto its first character. The next window starts `overlap` characters before
that edge, and at least one character after the start of this one. A blank window extends the piece
before it; blank windows at the beginning belong to the first piece.
-/

namespace Retrieval.Window

open Text

def stopLookback : Nat := 100

def spaceLookback : Nat := 50

/-- How many characters of `window` stand behind its last `mark`, if that is one of the last
`lookback` and not the first of the window. -/
def behindLast? (mark : Char) (lookback : Nat) (window : List Char) : Option Nat :=
  match (window.reverse.take lookback).idxOf? mark with
  | none => none
  | some i => if i + 1 < window.length then some i else none

def snap (window : List Char) : Nat :=
  match behindLast? '.' stopLookback window with
  | some n => window.length - n
  | none =>
      match behindLast? ' ' spaceLookback window with
      | some n => window.length - n
      | none => window.length

/-- The windows of the text from `position` on, after `skip` more characters. -/
def slide (budget overlap : Nat) : (skip position : Nat) → List Char → List Span
  | _, _, [] => []
  | skip + 1, position, _ :: rest => slide budget overlap skip (position + 1) rest
  | 0, position, c :: rest =>
      if ((c :: rest).drop budget).isEmpty then [⟨position, position + (c :: rest).length⟩]
      else
        let size := snap ((c :: rest).take budget)
        ⟨position, position + size⟩ ::
          slide budget overlap (size - overlap - 1) (position + 1) rest

/-- Drops the blank windows, each piece reaching as far as the blank windows behind it. The number
is how far the blank windows at the beginning reach. -/
def absorb (text : List Char) : List Span → Nat × List (Span × List Char)
  | [] => (0, [])
  | window :: later =>
      let (reach, pieces) := absorb text later
      let stop := max window.stop reach
      match trim (window.slice text) with
      | [] => (stop, pieces)
      | body => (0, (⟨window.start, stop⟩, body) :: pieces)

/-- The pieces of a text with their trimmed bodies; the first starts where the text does. -/
def pieces (budget overlap : Nat) (text : List Char) : List (Span × List Char) :=
  match (absorb text (slide budget overlap 0 0 text)).2 with
  | [] => []
  | (s, body) :: later => (⟨0, s.stop⟩, body) :: later

end Retrieval.Window
