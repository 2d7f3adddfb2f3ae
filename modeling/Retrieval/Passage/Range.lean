import Retrieval.Fault
import Retrieval.Passage.Sentence

/-!
# Sentences in any range

The bounds of a range may lie outside the text. What is cut out of the text is what the range and
the text share, where a negative bound counts from the end; the sentences found there are then
placed by the bounds as they are given, and a position that names no character is a fault.
-/

namespace Retrieval.Sentence

open Text

/-- The place in a text of `length` characters that a bound stands for. -/
def place (length : Nat) (bound : Int) : Nat :=
  (if bound < 0 then (length + bound).toNat else min bound.toNat length)

/-- The character at a position, counted from the end if it is negative. -/
def charAt (text : Array Char) (position : Int) : Outcome Char :=
  match if 0 ≤ position then text[position.toNat]?
    else if -(text.size : Int) ≤ position then text[(text.size + position).toNat]?
    else none with
  | some c => .ok c
  | none => .error { kind := .other "IndexError", message := "string index out of range" }

/-- A range that may reach out of the text. -/
structure Extent where
  start : Int
  stop : Int
deriving DecidableEq, Repr

namespace Extent

def length (e : Extent) : Int := e.stop - e.start

def trimStart (text : Array Char) (e : Extent) : Outcome Extent :=
  if e.start < e.stop then do
    if isBlank (← charAt text e.start) then trimStart text ⟨e.start + 1, e.stop⟩ else return e
  else return e
termination_by (e.stop - e.start).toNat

def trimStop (text : Array Char) (e : Extent) : Outcome Extent :=
  if e.start < e.stop then do
    if isBlank (← charAt text (e.stop - 1)) then trimStop text ⟨e.start, e.stop - 1⟩ else return e
  else return e
termination_by (e.stop - e.start).toNat

/-- A range without the blanks around it, if anything is left. -/
def trim? (text : Array Char) (e : Extent) : Outcome (Option Extent) := do
  let e ← (← e.trimStart text).trimStop text
  return if e.start < e.stop then some e else none

def between (text : Array Char) (start stop : Int) : List Int → Outcome (List Extent)
  | [] => return (← trim? text ⟨start, stop⟩).toList
  | bound :: bounds => do
      let first ← trim? text ⟨start, bound⟩
      let others ← between text bound stop bounds
      return first.toList ++ others

end Extent

def stops (masking : Masking) (text : List Char) : List Nat :=
  ((Run.ofText (mask masking.order text)).filter closes).map Run.stop

/-- The sentences in a range of a text, up to the end of the text if nothing else is said. -/
def spansIn (start : Int) (stop : Option Int) (text : List Char)
    (masking : Masking := .standard) : Outcome (List Extent) :=
  let stop := stop.getD text.length
  let first := place text.length start
  let segment := (⟨first, place text.length stop⟩ : Span).slice text
  Extent.between text.toArray start stop
    ((stops masking segment).map fun n : Nat => start + (n : Int))

end Retrieval.Sentence
