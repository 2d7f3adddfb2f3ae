/-!
# Blank characters

A character is blank when Unicode lists it as white space, a paragraph or segment separator, or a
space separator. Texts are lists of characters throughout the library, so that every position is a
count of code points.
-/

namespace Retrieval.Text

def inRanges (ranges : List (Nat × Nat)) (code : Nat) : Bool :=
  ranges.any fun range => range.1 ≤ code && code ≤ range.2

theorem inRanges_of_mem {ranges : List (Nat × Nat)} {low high code : Nat}
    (hm : (low, high) ∈ ranges) (hl : low ≤ code) (hh : code ≤ high) :
    inRanges ranges code = true :=
  List.any_eq_true.2 ⟨_, hm, by simp [hl, hh]⟩

def blankRanges : List (Nat × Nat) :=
  [(9, 13), (28, 32), (133, 133), (160, 160), (5760, 5760), (8192, 8202), (8232, 8233),
  (8239, 8239), (8287, 8287), (12288, 12288)]

def isBlank (c : Char) : Bool := inRanges blankRanges c.toNat

def trimLeft (text : List Char) : List Char := text.dropWhile isBlank

def trimRight (text : List Char) : List Char := (text.reverse.dropWhile isBlank).reverse

def trim (text : List Char) : List Char := trimRight (trimLeft text)

@[simp] theorem trim_nil : trim [] = [] := rfl

/-- The maximal runs of characters that are not blank. -/
def fields : List Char → List (List Char)
  | [] => []
  | c :: rest =>
      if isBlank c then fields rest
      else match rest with
        | [] => [[c]]
        | d :: _ =>
            if isBlank d then [c] :: fields rest
            else match fields rest with
              | [] => [[c]]
              | run :: runs => (c :: run) :: runs

end Retrieval.Text
