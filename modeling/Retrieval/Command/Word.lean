import Retrieval.Command.Rule
import Retrieval.Text.Search

/-!
# The words of a command line

Words are sorted by their look before any of them is read: a word that begins with a dash is an
option, if need be by the beginning of its name, and behind a divider every word is an operand.
Sorting keeps each word as it stands (`map_text_sortWords`).
-/

namespace Retrieval.Command

open Text

/-- What follows the name of an option within its word. -/
inductive Tail
  | nothing
  /-- What stands behind an equals sign. -/
  | value (text : String)
  /-- What stands right behind a name of one letter. -/
  | letters (text : String)
deriving DecidableEq, Repr

inductive Word (α : Type)
  | operand (text : String)
  | divider
  | option (rule : Rule α) (tail : Tail) (text : String)
  | unknown (text : String)

def dividerText : String := "--"

def Word.text {α : Type} : Word α → String
  | .operand text => text
  | .divider => dividerText
  | .option _ _ text => text
  | .unknown text => text

section Sorting

variable {α : Type} (rules : List (Rule α))

def ruleOf? (name : String) : Option (Rule α) := rules.find? (·.names.contains name)

def namedRules : List (String × Rule α) := rules.flatMap fun r => r.names.map fun name => (name, r)

/-- The part before an equals sign, and what follows the name. -/
def splitValue (word : String) : String × Tail :=
  match cutAt '=' word.toList with
  | some (name, value) => (String.ofList name, .value (String.ofList value))
  | none => (word, .nothing)

/-- The options that a word may mean although it names none. -/
def readings (word : String) : List (String × Rule α × Tail) :=
  if word.startsWith "--" then
    let (start, tail) := splitValue word
    (namedRules rules).filterMap fun (name, r) =>
      if name.startsWith start then some (name, r, tail) else none
  else (namedRules rules).filterMap fun (name, r) =>
    if name.toList == word.toList.take 2 then
      some (name, r, .letters (String.ofList (word.toList.drop 2)))
    else if name.startsWith word then some (name, r, .nothing)
    else none

/-- Digits of any script after a dash, with at most one point in front of the last of them. A line
end may follow. -/
def isNegativeNumeral (word : String) : Bool :=
  match word.toList with
  | '-' :: body =>
      let body := if body.getLast? == some '\n' then body.dropLast else body
      let isDigit (c : Char) : Bool := (digitValue? c).isSome
      let places := match body.dropWhile isDigit with
        | '.' :: places => places
        | [] => body
        | _ => []
      !places.isEmpty && places.all isDigit
  | _ => false

def Word.ofText (word : String) : Except Complaint (Word α) :=
  if !word.startsWith "-" || word == "-" then .ok (.operand word)
  else match ruleOf? rules word with
    | some r => .ok (.option r .nothing word)
    | none =>
        let (name, tail) := splitValue word
        match if tail == .nothing then none else ruleOf? rules name with
        | some r => .ok (.option r tail word)
        | none =>
            match readings rules word with
            | [(_, r, tail)] => .ok (.option r tail word)
            | [] =>
                .ok (if isNegativeNumeral word || word.toList.contains ' ' then .operand word
                  else .unknown word)
            | several => .error (.ambiguous word (several.map (·.1)))

def sortWords : List String → Except Complaint (List (Word α))
  | [] => .ok []
  | word :: rest =>
      if word == dividerText then .ok (.divider :: rest.map .operand)
      else do
        let first ← Word.ofText rules word
        let others ← sortWords rest
        return first :: others

/-- Sorting keeps each word as it stands. -/
theorem Word.text_ofText {word : String} {w : Word α} (h : Word.ofText rules word = .ok w) :
    w.text = word := by
  unfold Word.ofText at h
  split at h
  · cases h; rfl
  · split at h
    · cases h; rfl
    · dsimp only at h
      split at h
      · cases h; rfl
      · split at h
        · cases h; rfl
        · split at h <;> (cases h; rfl)
        · cases h

theorem map_text_sortWords {words : List String} {sorted : List (Word α)}
    (h : sortWords rules words = .ok sorted) : sorted.map Word.text = words := by
  induction words generalizing sorted with
  | nil => cases h; rfl
  | cons word rest ih =>
      rw [sortWords] at h
      split at h
      · next hd =>
        cases h
        simp [Word.text, eq_of_beq hd, Function.comp_def]
      · cases hw : Word.ofText rules word with
        | error c => simp [hw, bind, Except.bind] at h
        | ok first =>
            cases hs : sortWords rules rest with
            | error c => simp [hw, hs, bind, Except.bind] at h
            | ok others =>
                simp only [hw, hs, bind, Except.bind, pure, Except.pure, Except.ok.injEq] at h
                subst h
                simp [Word.text_ofText rules hw, ih hs]

/-- Letters behind an option that takes no value name further such options, up to one that takes
the rest as its value. Letters that name none are left over. -/
def spell (label : String) :
    List Char → Except Complaint (List (Rule α × Option String) × List String)
  | [] => .ok ([], [])
  | c :: rest =>
      if c == '-' then .error (.ignoredValue label (String.ofList (c :: rest)))
      else match ruleOf? rules (String.ofList ['-', c]) with
        | none => .ok ([], [String.ofList ('-' :: c :: rest)])
        | some r =>
            let value := if rest.head? == some '=' then rest.drop 1 else rest
            if r.takesValue then .ok ([(r, some (String.ofList value))], [])
            else if rest.head? == some '=' then
              .error (.ignoredValue r.label (String.ofList value))
            else do
              let (others, left) ← spell r.label rest
              return ((r, none) :: others, left)

end Sorting

end Retrieval.Command
