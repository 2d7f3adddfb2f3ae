import Retrieval.Config.Flow
import Retrieval.Config.Settings

/-!
# Configuration layers

The configuration file is the lower layer, and the settings are laid over it. Where both have a map
the maps are merged; everywhere else the upper layer replaces the lower one.
-/

namespace Retrieval.Config

mutual

/-- What stands at a place after `upper` is laid over it. -/
def overlay (lower : Option Value) (upper : Value) : Value :=
  match upper with
  | .map entries =>
      match lower with
      | some (.map fields) => .map (merge fields entries)
      | _ => .map entries
  | value => value

def merge (lower : Fields) : List (String × Value) → Fields
  | [] => lower
  | (name, value) :: rest => merge (lower.set name (overlay (lower.get? name) value)) rest

end

def layerOf (s : Settings) : Fields :=
  [("app", .map [("env", .text s.environment)]),
    ("openai", .map [("api_key", .text s.openaiApiKey), ("base_url", .text s.openaiBaseUrl),
      ("available_providers", .list (s.providers.map .text))]),
    ("vector_store", .map [("provider", .text s.vectorStore),
      ("persist_dir", .text s.persistDirectory), ("collection", .text s.collection)]),
    ("logging", .map [("level", .text s.logLevel)])]

def tooManyDigits (digits : Nat) : Fault :=
  .badValue ("Exceeds the limit (" ++ toString Number.mostDigits ++
    " digits) for integer string conversion: value has " ++ toString digits ++
    " digits; use sys.set_int_max_str_digits() to increase the limit")

def fileFault (path : String) : Flow.Trouble → Fault
  | .malformed => .configuration ("Invalid YAML in " ++ path)
  | .oversized digits => tooManyDigits digits

/-- The map in a configuration file. A file that holds nothing counts as an empty map. -/
def read (path content : String) : Outcome Fields :=
  match Flow.ofText? content.toList with
  | none => .error (fileFault path .malformed)
  | some node =>
      match node.trouble?, node.value with
      | some trouble, _ => .error (fileFault path trouble)
      | none, .map fields => .ok fields
      | none, value =>
          if value.isTruthy then
            .error (.configuration (path ++ " must contain a mapping at the top level"))
          else .ok []

/-- The whole configuration; there may be no file. -/
def load (content : Option String) (s : Settings) : Outcome Fields :=
  match content with
  | none => .ok (merge [] (layerOf s))
  | some content => (read s.configPath content).map fun fields => merge fields (layerOf s)

end Retrieval.Config
