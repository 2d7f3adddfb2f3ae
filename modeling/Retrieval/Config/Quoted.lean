import Retrieval.Value.Json

/-!
# Scalars over several lines

Texts of a configuration may go over line ends. White space around a line end is dropped, a single
line end stands for a space, and of several all but the first stay. In quotes everything else stands
for itself: between single quotes all but a doubled quote, between double quotes all but a backslash
and what it escapes.
-/

namespace Retrieval.Config

/-- Line ends, of which the separators for lines and for paragraphs count as they are. -/
def isLineEnd (c : Char) : Bool := c == '\n' || c == '\u2028' || c == '\u2029'

/-- All ways to end a line other than the two separators become one. -/
def oneLineEnd : List Char → List Char
  | '\r' :: '\n' :: rest => '\n' :: oneLineEnd rest
  | c :: rest => (if c == '\r' || c == '\u0085' then '\n' else c) :: oneLineEnd rest
  | [] => []

def isSpaceOrTab (c : Char) : Bool := c == ' ' || c == '\t'

/-- The text is at an end, or a separator stands there. -/
def endsWord (text : List Char) : Bool := text.head?.all fun c => isSpaceOrTab c || isLineEnd c

def opensDocument (line : List Char) : Bool :=
  (['-', '-', '-'].isPrefixOf line || ['.', '.', '.'].isPrefixOf line) && endsWord (line.drop 3)

/-- White space that is held back until it is known what follows. -/
inductive Held
  | spaces (text : List Char)
  /-- Line ends; the first is `none` if it is escaped and so stands for nothing. -/
  | lines (first : Option Char) (more : List Char)

namespace Held

def nothing : Held := spaces []

def isNothing : Held → Bool
  | spaces text => text.isEmpty
  | lines _ _ => false

def addSpace (c : Char) : Held → Held
  | spaces text => spaces (text ++ [c])
  | held => held

def addLine (c : Char) : Held → Held
  | spaces _ => lines (some c) []
  | lines first more => lines first (more ++ [c])

def text : Held → List Char
  | spaces text => text
  | lines none more => more
  | lines (some first) more =>
      if first != '\n' then first :: more else if more.isEmpty then [' '] else more

end Held

/-- The number of hexadecimal digits behind the letter of an escape. -/
def escapeWidth? : Char → Option Nat
  | 'x' => some 2
  | 'u' => some 4
  | 'U' => some 8
  | _ => none

def namedEscapes : List (Char × Nat) :=
  [('0', 0), ('a', 7), ('b', 8), ('t', 9), ('\t', 9), ('n', 10), ('v', 11), ('f', 12), ('r', 13),
    ('e', 27), (' ', 32), ('"', 34), ('/', 47), ('\\', 92), ('N', 133), ('_', 160), ('L', 8232),
    ('P', 8233)]

def hexNumber? (digits : List Char) : Option Nat :=
  digits.foldl (fun n c => do return (← n) * 16 + (← Json.hexValue? c)) (some 0)

def escape? (letter : Char) (rest : List Char) : Option (Nat × List Char) :=
  match escapeWidth? letter with
  | some width => do
      let code ← hexNumber? (rest.take width)
      if width ≤ rest.length ∧ code < 0x110000 then some (code, rest.drop width) else none
  | none => (namedEscapes.lookup letter).map fun code => (code, rest)

theorem length_escape? {letter : Char} {rest after : List Char} {code : Nat}
    (h : escape? letter rest = some (code, after)) : after.length ≤ rest.length := by
  unfold escape? at h
  split at h
  · simp only [Option.bind_eq_bind, Option.bind_eq_some_iff] at h
    obtain ⟨_, _, h⟩ := h
    split at h
    · cases h; simp
    · cases h
  · obtain ⟨_, _, h⟩ := Option.map_eq_some_iff.1 h
    cases h; simp

/-- The code units of a text up to its closing mark, and what follows the mark. -/
def quoted? (mark : Char) (held : Held) : List Char → Option (List Nat × List Char)
  | [] => none
  | c :: rest =>
      let before := held.text.map Char.toNat
      let put (codes : List Nat) (after : Option (List Nat × List Char)) :=
        after.map fun (units, rest) => (before ++ codes ++ units, rest)
      if isSpaceOrTab c then quoted? mark (held.addSpace c) rest
      else if isLineEnd c then
        if opensDocument rest then none else quoted? mark (held.addLine c) rest
      else if c == mark then
        match rest with
        | next :: later =>
            if mark == '\'' && next == '\'' then put [39] (quoted? mark .nothing later)
            else some (before, rest)
        | [] => some (before, [])
      else if c == '\\' && mark == '"' then
        match rest with
        | [] => none
        | letter :: later =>
            if isLineEnd letter then
              if opensDocument later then none else put [] (quoted? mark (.lines none []) later)
            else match h : escape? letter later with
              | some (code, later) =>
                  have := length_escape? h
                  put [code] (quoted? mark .nothing later)
              | none => none
      else put [c.toNat] (quoted? mark .nothing rest)
termination_by text => text.length
decreasing_by all_goals simp_all; try omega

def isMark (c : Char) : Bool := [',', '[', ']', '\x7b', '\x7d'].contains c

/-- What ends a scalar without quotes: a tab, a comment behind white space, a colon that ends a
word, and inside brackets their marks and the question mark. -/
def endsPlain (nested : Bool) (held : Held) (c : Char) (rest : List Char) : Bool :=
  c == '\t' || (c == '#' && !held.isNothing) ||
    (c == ':' && (endsWord rest || (nested && rest.head?.any isMark))) ||
    (nested && (c == '?' || isMark c))

def plain (nested : Bool) (held : Held) : List Char → List Char × List Char
  | [] => ([], [])
  | c :: rest =>
      if c == ' ' then plain nested (held.addSpace c) rest
      else if isLineEnd c then
        if opensDocument rest then ([], rest) else plain nested (held.addLine c) rest
      else if endsPlain nested held c rest then ([], c :: rest)
      else
        let (text, after) := plain nested .nothing rest
        (held.text ++ c :: text, after)

end Retrieval.Config
