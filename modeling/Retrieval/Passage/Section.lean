import Retrieval.Passage.Span

/-!
# Sections under headings

A heading opens a line with one to six number signs, then blanks, then a title that runs to the end
of its line. The blanks may cross line ends. A section runs from its heading to the next one; text
before the first heading is a section of its own unless it is blank.
-/

namespace Retrieval

open Text

structure Heading where
  /-- The characters from the first number sign to the end of the title. -/
  length : Nat
  title : List Char
deriving DecidableEq, Repr

namespace Heading

def upToLineEnd (text : List Char) : List Char := text.takeWhile (· != '\n')

/-- The title behind the number signs: `blanks` are the blanks read, and `rest` what follows them.
When nothing follows, the last blank that is not a line end serves as the title, unless it is the
first of the blanks. -/
def title? (blanks rest : List Char) : Option (Nat × List Char) :=
  match blanks, rest with
  | [], _ => none
  | blanks, c :: rest =>
      let title := upToLineEnd (c :: rest)
      some (blanks.length + title.length, title)
  | _ :: blanks, [] =>
      match blanks.reverse.dropWhile (· == '\n') with
      | [] => none
      | c :: earlier => some (earlier.length + 2, [c])

def opening? (text : List Char) : Option Heading :=
  let signs := (text.takeWhile (· == '#')).length
  if signs = 0 ∨ 6 < signs then none
  else
    let rest := text.drop signs
    (title? (rest.takeWhile isBlank) (rest.dropWhile isBlank)).map fun (length, title) =>
      ⟨signs + length, trim title⟩

/-- The headings and where they start, in the text from `position` on. The next `skip` characters
belong to a heading already found, and `opens` tells that a line starts here. -/
def scan : (skip position : Nat) → (opens : Bool) → List Char → List (Nat × Heading)
  | _, _, _, [] => []
  | skip + 1, position, _, c :: rest => scan skip (position + 1) (c == '\n') rest
  | 0, position, opens, c :: rest =>
      match if opens then opening? (c :: rest) else none with
      | some h => (position, h) :: scan (h.length - 1) (position + 1) (c == '\n') rest
      | none => scan 0 (position + 1) (c == '\n') rest

def all (text : List Char) : List (Nat × Heading) := scan 0 0 true text

end Heading

structure Section where
  span : Span
  title : Option (List Char)
deriving DecidableEq, Repr

namespace Section

/-- One section for each heading, the last one ending at `stop`. -/
def ofHeadings (stop : Nat) : List (Nat × Heading) → List Section
  | [] => []
  | (start, h) :: later =>
      ⟨⟨start, (later.head?.map (·.1)).getD stop⟩, some h.title⟩ :: ofHeadings stop later

def ofText (text : List Char) : List Section :=
  let headings := Heading.all text
  let sections := ofHeadings text.length headings
  match headings with
  | [] => []
  | (first, _) :: _ =>
      if (trim (text.take first)).isEmpty then sections
      else ⟨⟨0, first⟩, none⟩ :: sections

/-- Joins neighbouring sections while they stay within the budget. The title is that of the last
section joined. -/
def gatherInto (budget : Nat) (current : Section) : List Section → List Section
  | [] => [current]
  | next :: later =>
      if current.span.length + next.span.length ≤ budget then
        gatherInto budget ⟨⟨current.span.start, next.span.stop⟩, next.title⟩ later
      else current :: gatherInto budget next later

def gather (budget : Nat) : List Section → List Section
  | [] => []
  | first :: later => gatherInto budget first later

end Section

end Retrieval
