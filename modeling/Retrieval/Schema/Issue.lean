/-!
# What is wrong with a value

Checking a value against a schema finds all flaws at once. Each is reported with the path of field
names and positions that leads to it.
-/

namespace Retrieval.Schema

inductive Step
  | field (name : String)
  | position (index : Nat)
deriving DecidableEq, Repr

def Step.text : Step → String
  | .field name => name
  | .position index => toString index

inductive Flaw
  | missing
  | notText
  | undecodableText
  | notBytes
  | notInt
  | unreadableInt
  | oversizedInt
  | fractional
  | notFinite
  | notReal
  | unreadableReal
  | notBool
  | unreadableBool
  | notMoment
  | unreadableMoment
  | notDate
  | noSuchDate
  | unreadableDate
  /-- A moment that is not the beginning of a day. -/
  | inexactDate
  | notMap
  | notList
  | notRecord (name : String)
  | notOneOf (options : List String)
  | notAbove (bound : Int)
  | below (bound : Int)
  | unknownField
  | rule (message : String)
deriving DecidableEq, Repr

/-- Options in quotes with commas, and "or" before the last. -/
def optionsText : List String → String
  | [] => ""
  | [last] => "'" ++ last ++ "'"
  | [a, last] => "'" ++ a ++ "' or '" ++ last ++ "'"
  | a :: rest => "'" ++ a ++ "', " ++ optionsText rest

def Flaw.message : Flaw → String
  | .missing => "Field required"
  | .notText => "Input should be a valid string"
  | .undecodableText =>
      "Input should be a valid string, unable to parse raw data as a unicode string"
  | .notBytes => "Input should be a valid bytes"
  | .notInt => "Input should be a valid integer"
  | .unreadableInt => "Input should be a valid integer, unable to parse string as an integer"
  | .oversizedInt => "Unable to parse input string as an integer, exceeded maximum size"
  | .fractional => "Input should be a valid integer, got a number with a fractional part"
  | .notFinite => "Input should be a finite number"
  | .notReal => "Input should be a valid number"
  | .unreadableReal => "Input should be a valid number, unable to parse string as a number"
  | .notBool => "Input should be a valid boolean"
  | .unreadableBool => "Input should be a valid boolean, unable to interpret input"
  | .notMoment => "Input should be a valid datetime"
  | .unreadableMoment => "Input should be a valid datetime or date"
  | .notDate => "Input should be a valid date"
  | .noSuchDate => "Input should be a valid date in the format YYYY-MM-DD"
  | .unreadableDate => "Input should be a valid date or datetime"
  | .inexactDate =>
      "Datetimes provided to dates should have zero time - e.g. be exact dates"
  | .notMap => "Input should be a valid dictionary"
  | .notList => "Input should be a valid list"
  | .notRecord name => "Input should be a valid dictionary or instance of " ++ name
  | .notOneOf options => "Input should be " ++ optionsText options
  | .notAbove bound => "Input should be greater than " ++ toString bound
  | .below bound => "Input should be greater than or equal to " ++ toString bound
  | .unknownField => "Extra inputs are not permitted"
  | .rule message => "Value error, " ++ message

def Flaw.code : Flaw → String
  | .missing => "missing"
  | .notText => "string_type"
  | .undecodableText => "string_unicode"
  | .notBytes => "bytes_type"
  | .notInt => "int_type"
  | .unreadableInt => "int_parsing"
  | .oversizedInt => "int_parsing_size"
  | .fractional => "int_from_float"
  | .notFinite => "finite_number"
  | .notReal => "float_type"
  | .unreadableReal => "float_parsing"
  | .notBool => "bool_type"
  | .unreadableBool => "bool_parsing"
  | .notMoment => "datetime_type"
  | .unreadableMoment => "datetime_from_date_parsing"
  | .notDate => "date_type"
  | .noSuchDate => "date_parsing"
  | .unreadableDate => "date_from_datetime_parsing"
  | .inexactDate => "date_from_datetime_inexact"
  | .notMap => "dict_type"
  | .notList => "list_type"
  | .notRecord _ => "model_type"
  | .notOneOf _ => "enum"
  | .notAbove _ => "greater_than"
  | .below _ => "greater_than_equal"
  | .unknownField => "extra_forbidden"
  | .rule _ => "value_error"

structure Issue where
  path : List Step
  flaw : Flaw
deriving DecidableEq, Repr

structure Report where
  record : String
  issues : List Issue
deriving DecidableEq, Repr

/-- A line for the count, then for each issue its path and, indented, what is wrong. -/
def Report.text (r : Report) : String :=
  let count := r.issues.length
  let head := toString count ++ " validation error" ++ (if count = 1 then "" else "s") ++ " for " ++
    r.record
  let lines := r.issues.flatMap fun issue =>
    (if issue.path.isEmpty then [] else [".".intercalate (issue.path.map Step.text)]) ++
      ["  " ++ issue.flaw.message]
  "\n".intercalate (head :: lines)

end Retrieval.Schema
