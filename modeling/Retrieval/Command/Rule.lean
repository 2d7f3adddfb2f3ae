import Retrieval.Number.Numeral
import Retrieval.Text.Quoted

/-!
# The options of a command line

A rule gives an option its names and says what it does to the options read before it: it asks for
help, it marks something, or it takes a value, which it may refuse.
-/

namespace Retrieval.Command

open Text

inductive Complaint
  | ambiguous (word : String) (names : List String)
  | missingValue (option : String)
  | ignoredValue (option value : String)
  | unreadableInt (option value : String)
  | notOneOf (argument value : String) (choices : List String)
  | required (arguments : List String)
  | unrecognized (words : List String)
deriving DecidableEq, Repr

def Complaint.message : Complaint → String
  | .ambiguous word names =>
      "ambiguous option: " ++ word ++ " could match " ++ ", ".intercalate names
  | .missingValue option => "argument " ++ option ++ ": expected one argument"
  | .ignoredValue option value =>
      "argument " ++ option ++ ": ignored explicit argument " ++ quote value
  | .unreadableInt option value =>
      "argument " ++ option ++ ": invalid int value: " ++ quote value
  | .notOneOf argument value choices =>
      "argument " ++ argument ++ ": invalid choice: " ++ quote value ++ " (choose from " ++
        ", ".intercalate (choices.map quote) ++ ")"
  | .required arguments =>
      "the following arguments are required: " ++ ", ".intercalate arguments
  | .unrecognized words => "unrecognized arguments: " ++ " ".intercalate words

inductive Stop
  | help
  | refused (complaint : Complaint)
deriving DecidableEq, Repr

/-- What an option does to what was read before it. -/
inductive Meaning (α : Type)
  | help
  | mark (apply : α → α)
  | value (apply : String → α → Except Complaint α)

structure Rule (α : Type) where
  names : List String
  meaning : Meaning α

namespace Rule

variable {α : Type}

def label (r : Rule α) : String := "/".intercalate r.names

def help : Rule α := ⟨["-h", "--help"], .help⟩

def mark (name : String) (apply : α → α) : Rule α := ⟨[name], .mark apply⟩

def text (name : String) (apply : String → α → α) : Rule α :=
  ⟨[name], .value fun value a => .ok (apply value a)⟩

def int (name : String) (apply : Int → α → α) : Rule α :=
  ⟨[name], .value fun value a =>
    match Number.int? value.toList with
    | some n => .ok (apply n a)
    | none => .error (.unreadableInt name value)⟩

def choice {β : Type} (name : String) (choices : List (String × β)) (apply : β → α → α) : Rule α :=
  ⟨[name], .value fun value a =>
    match choices.lookup value with
    | some b => .ok (apply b a)
    | none => .error (.notOneOf name value (choices.map (·.1)))⟩

def takesValue (r : Rule α) : Bool :=
  match r.meaning with
  | .value _ => true
  | _ => false

def apply (r : Rule α) (value : Option String) (a : α) : Except Stop α :=
  match r.meaning, value with
  | .help, _ => .error .help
  | .mark apply, _ => .ok (apply a)
  | .value apply, some value => (apply value a).mapError .refused
  | .value _, none => .error (.refused (.missingValue r.label))

end Rule

end Retrieval.Command
