import Retrieval.Command.Word

/-!
# Reading a command line

A usage is a list of options and a demand for operands. The sorted words of a command line are read
from left to right. The first run of operands that meets the demand is taken; whatever nobody asked
for is left over.
-/

namespace Retrieval.Command

inductive Demand
  | nothing
  | one
  | many
  /-- One, and every word behind it as it stands. -/
  | command
deriving DecidableEq, Repr

inductive Phase
  | before
  | during
  | after
deriving DecidableEq, Repr

structure Reading (α : Type) where
  options : α
  /-- The option whose value comes next. -/
  waiting : Option (Rule α)
  phase : Phase
  operands : List String
  left : List String

namespace Reading

variable {α : Type}

def new (options : α) : Reading α := ⟨options, none, .before, [], []⟩

def leave (r : Reading α) (words : List String) : Reading α := { r with left := r.left ++ words }

/-- An option ends a run of operands. -/
def endRun (r : Reading α) : Reading α :=
  if r.phase = .during then { r with phase := .after } else r

def operand (demand : Demand) (text : String) (r : Reading α) : Reading α :=
  match demand, r.phase with
  | .many, .before | .many, .during | .one, .before =>
      { r with phase := .during, operands := r.operands ++ [text] }
  | _, _ => r.endRun.leave [text]

/-- A divider belongs to the run it stands in or opens, and to nobody elsewhere. -/
def divider (demand : Demand) (opensRun : Bool) (r : Reading α) : Reading α :=
  match demand, r.phase with
  | .nothing, _ | _, .after => r.leave [dividerText]
  | _, .before => if opensRun then r else r.leave [dividerText]
  | _, .during => r

/-- The first operand of a command line that takes all words behind it. -/
def command (texts : List String) (r : Reading α) : Reading α :=
  { r with phase := .after, operands := texts }

def apply (r : Reading α) (rule : Rule α) (value : Option String) : Except Stop (Reading α) :=
  (rule.apply value r.options).map fun options => { r with options, waiting := none }

def option (rules : List (Rule α)) (r : Reading α) (rule : Rule α) :
    Tail → Except Stop (Reading α)
  | .nothing => if rule.takesValue then .ok { r with waiting := some rule } else r.apply rule none
  | .value value =>
      if rule.takesValue then r.apply rule (some value)
      else .error (.refused (.ignoredValue rule.label value))
  | .letters letters =>
      if rule.takesValue then r.apply rule (some letters)
      else do
        let (others, left) ← (spell rules rule.label letters.toList).mapError .refused
        ((rule, none) :: others).foldlM (fun r named => r.apply named.1 named.2) (r.leave left)

end Reading

structure Usage (α : Type) where
  rules : List (Rule α)
  demand : Demand

namespace Usage

variable {α : Type}

def summary (u : Usage α) : List String :=
  (u.rules.map fun r => "[" ++ r.label ++ (if r.takesValue then " VALUE]" else "]")) ++
    match u.demand with
    | .nothing => []
    | .one => ["TEXT"]
    | .many => ["URI..."]
    | .command => ["COMMAND"]

def read (u : Usage α) : List (Word α) → Reading α → Except Stop (Reading α)
  | [], r =>
      match r.waiting with
      | some rule => .error (.refused (.missingValue rule.label))
      | none => .ok r
  | word :: rest, r =>
      match r.waiting, word with
      | some rule, .operand value => do
          let r ← r.apply rule (some value)
          u.read rest r
      | some rule, _ => .error (.refused (.missingValue rule.label))
      | none, .operand text =>
          if u.demand = .command then .ok (r.command (text :: rest.map Word.text))
          else u.read rest (r.operand u.demand text)
      | none, .divider =>
          if u.demand = .command && !rest.isEmpty then
            .ok (r.command (dividerText :: rest.map Word.text))
          else u.read rest (r.divider u.demand !rest.isEmpty)
      | none, .unknown text => u.read rest (r.endRun.leave [text])
      | none, .option rule tail _ => do
          let r ← r.endRun.option u.rules rule tail
          u.read rest r

/-- Reads a command line, beginning with what holds if nothing is said. -/
def parse (u : Usage α) (options : α) (words : List String) : Except Stop (Reading α) := do
  let sorted ← (sortWords u.rules words).mapError .refused
  u.read sorted (.new options)

end Usage

end Retrieval.Command
