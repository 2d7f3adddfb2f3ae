import Retrieval.Schema.Issue
import Retrieval.Text.Quoted

/-!
# Faults

Every operation that fails says what kind of failure it is, in words, and which provider failed if
one did. The kinds form a tree with `general` at its root; faults that come from outside the library
have kinds of their own.
-/

namespace Retrieval

inductive FaultKind
  | general
  | configuration
  | documentLoad
  | extraction
  | retrieval
  | embeddingContract
  | unavailable
  | quotaExceeded
  /-- A value of the right type that makes no sense. -/
  | badValue
  | badType
  | missingKey
  | overflow
  /-- Bytes that are no text. -/
  | undecodable
  /-- A record that its schema rejects. -/
  | invalid
  | other (name : String)
deriving DecidableEq, Repr

namespace FaultKind

/-- The kinds raised by the library itself. -/
def own : List FaultKind :=
  [.general, .configuration, .documentLoad, .extraction, .retrieval, .embeddingContract,
    .unavailable, .quotaExceeded]

def isOwn (kind : FaultKind) : Bool := own.contains kind

def names : List (FaultKind × String) :=
  [(.general, "TenantRagError"), (.configuration, "ConfigurationError"),
    (.documentLoad, "DocumentLoadError"), (.extraction, "ExtractionError"),
    (.retrieval, "RAGError"), (.embeddingContract, "EmbeddingContractError"),
    (.unavailable, "ProviderUnavailableError"), (.quotaExceeded, "QuotaExceededError"),
    (.badValue, "ValueError"), (.badType, "TypeError"), (.missingKey, "KeyError"),
    (.overflow, "OverflowError"), (.undecodable, "UnicodeDecodeError"),
    (.invalid, "ValidationError")]

def name : FaultKind → String
  | .other name => name
  | kind => (names.lookup kind).getD ""

def ofName (name : String) : FaultKind :=
  match names.find? (·.2 == name) with
  | some (kind, _) => kind
  | none => .other name

/-- A kind and the wider kinds it belongs to. -/
def lineage : FaultKind → List FaultKind
  | .general => [.general]
  | .embeddingContract => [.embeddingContract, .retrieval, .general]
  | kind => if kind.isOwn then [kind, .general] else [kind]

def defaultMessage : FaultKind → String
  | .general => "An unexpected error occurred"
  | .configuration => "Invalid configuration"
  | .documentLoad => "Document could not be loaded"
  | .extraction => "Text extraction failed"
  | .retrieval => "RAG operation failed"
  | .embeddingContract => "Embedding provider violated its contract"
  | .unavailable => "Provider is unavailable"
  | .quotaExceeded => "Tenant quota exceeded"
  | _ => ""

def isBadValue : FaultKind → Bool
  | .badValue | .undecodable | .invalid => true
  | .other name => name == "UnicodeError"
  | _ => false

end FaultKind

structure Fault where
  kind : FaultKind
  message : String
  provider : Option String := none
  /-- The schema report behind the fault, told after the message. -/
  report : Option Schema.Report := none
deriving DecidableEq, Repr

namespace Fault

instance : Inhabited Fault := ⟨⟨.general, "", none, none⟩⟩

def fullMessage (f : Fault) : String :=
  match f.report with
  | none => f.message
  | some report => if f.kind = .invalid then report.text else f.message ++ ": " ++ report.text

/-- How a fault is shown: the provider stands in brackets before the message, and a missing key
stands in quotes. -/
def text (f : Fault) : String :=
  match f.kind with
  | .missingKey => Text.quote f.message
  | _ =>
      match f.provider with
      | some provider =>
          if provider.isEmpty then f.fullMessage else "[" ++ provider ++ "] " ++ f.fullMessage
      | none => f.fullMessage

def configuration (message : String) : Fault := { kind := .configuration, message }

def badValue (message : String) : Fault := { kind := .badValue, message }

def badType (message : String) : Fault := { kind := .badType, message }

def overflow (message : String) : Fault := { kind := .overflow, message }

def missingKey (key : String) : Fault := { kind := .missingKey, message := key }

def invalid (report : Schema.Report) : Fault :=
  { kind := .invalid, message := "", report := some report }

def fromProvider (kind : FaultKind) (provider message : String) : Fault :=
  { kind, message, provider := some provider }

end Fault

abbrev Outcome := Except Fault

theorem Outcome.bind_ok {α β : Type} (a : α) (f : α → Outcome β) :
    Except.bind (.ok a) f = f a := rfl

theorem Outcome.bind_ite {α β : Type} (c : Prop) [Decidable c] (a : α) (fault : Fault)
    (f : α → Outcome β) : Except.bind (if c then .ok a else .error fault) f =
      if c then f a else .error fault := by
  split <;> rfl

theorem Outcome.bind_eq_ok {α β : Type} {x : Outcome α} {f : α → Outcome β} {b : β}
    (h : Except.bind x f = .ok b) : ∃ a, x = .ok a ∧ f a = .ok b := by
  cases x with
  | error fault => cases h
  | ok a => exact ⟨a, rfl, h⟩

theorem Outcome.bind_error {α β : Type} (fault : Fault) (f : α → Outcome β) :
    Except.bind (.error fault) f = .error fault := rfl

end Retrieval
