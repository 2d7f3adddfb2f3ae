import Retrieval.Filter.Builder
import Retrieval.Number.Numeral

/-!
# Filter clauses

A clause `field=value` asks for equality. Its value is read as a truth value, else as a whole
number, else as a real one, else as the text it is.
-/

namespace Retrieval.Filter

open Text

def clauseValue (text : List Char) : Value :=
  match text.map Char.toLower == "true".toList, text.map Char.toLower == "false".toList with
  | true, _ => .bool true
  | _, true => .bool false
  | _, _ =>
      match Number.int? text, Number.real? text with
      | some n, _ => .int n
      | none, some x => .real x
      | none, none => .text (String.ofList text)

def clause (text : String) : Outcome Call :=
  match cutAt '=' text.toList with
  | some (c :: field, value) =>
      .ok (.predicate (String.ofList (trim (c :: field))) .eq (clauseValue (trim value)))
  | _ => .error (.badValue ("--where expects field=value, got '" ++ text ++ "'"))

def ofClauses (clauses : List String) : Outcome (Option Filter) :=
  match clauses with
  | [] => .ok none
  | clauses => do
      let calls ← clauses.mapM clause
      let builder ← Builder.applyAll .empty calls
      some <$> builder.joinAll

end Retrieval.Filter
