import Retrieval.Metadata
import Retrieval.Value.Order

/-!
# Filters

A filter is a tree of predicates on metadata fields. A place of the tree may be empty, which accepts
everything, or be taken by something that is no filter and cannot be evaluated. A predicate that
needs the text of an illegible value cannot be evaluated either.
-/

namespace Retrieval

inductive Operator
  | eq
  | ne
  | gt
  | gte
  | lt
  | lte
  | contains
deriving DecidableEq, Repr

namespace Operator

def name : Operator → String
  | .eq => "eq"
  | .ne => "ne"
  | .gt => "gt"
  | .gte => "gte"
  | .lt => "lt"
  | .lte => "lte"
  | .contains => "contains"

def all : List Operator := [.eq, .ne, .gt, .gte, .lt, .lte, .contains]

def ofName (name : String) : Outcome Operator :=
  match all.find? (·.name == name) with
  | some op => .ok op
  | none => .error (.badValue (Text.quote name ++ " is not a valid FilterOperator"))

def admits (op : Operator) (order : Ordering) : Bool :=
  match op with
  | .gt => order == .gt
  | .gte => order != .lt
  | .lt => order == .lt
  | .lte => order != .gt
  | _ => false

end Operator

structure Predicate where
  field : String
  op : Operator
  value : Value

def Predicate.test (p : Predicate) (actual : Value) : Bool :=
  match p.op with
  | .eq => actual.agrees p.value
  | .ne => !actual.agrees p.value
  | .contains => actual.holds p.value
  | op => (actual.compare? p.value).any op.admits

/-- A missing field, or one that is null, satisfies only inequality. -/
def Predicate.holds (p : Predicate) (fields : Fields) : Bool :=
  match fields.get? p.field with
  | none | some .null => p.op == .ne
  | some actual => p.test actual

/-- Nothing illegible is read to test a value. -/
def Predicate.testsLegibly (p : Predicate) (actual : Value) : Bool :=
  match p.op with
  | .contains => actual.holdsLegibly p.value
  | _ => actual.comparesLegibly p.value

def Predicate.isLegible (p : Predicate) (fields : Fields) : Bool :=
  match fields.get? p.field with
  | none | some .null => true
  | some actual => p.testsLegibly actual

def Predicate.check (p : Predicate) (fields : Fields) : Outcome Bool :=
  if p.isLegible fields then .ok (p.holds fields) else .error Value.tooLong

inductive Filter
  | pred (p : Predicate)
  | all (filters : List Filter)
  | any (filters : List Filter)
  | not (filter : Filter)
  | absent
  /-- A value in the place of a filter. -/
  | foreign (value : Value)

namespace Filter

instance : Inhabited Filter := ⟨.absent⟩

def unsupported (value : Value) : Fault :=
  .badType ("Unsupported filter node: " ++ value.typeName)

mutual

/-- Whether metadata satisfies a filter. Groups are read from the left only as far as needed. -/
def evaluate : Filter → Fields → Outcome Bool
  | .pred p, fields => p.check fields
  | .all filters, fields => evaluateAll filters fields
  | .any filters, fields => evaluateAny filters fields
  | .not filter, fields => (evaluate filter fields).map (!·)
  | .absent, _ => .ok true
  | .foreign value, _ => .error (unsupported value)

def evaluateAll : List Filter → Fields → Outcome Bool
  | [], _ => .ok true
  | filter :: rest, fields =>
      match evaluate filter fields with
      | .ok true => evaluateAll rest fields
      | other => other

def evaluateAny : List Filter → Fields → Outcome Bool
  | [], _ => .ok false
  | filter :: rest, fields =>
      match evaluate filter fields with
      | .ok false => evaluateAny rest fields
      | other => other

end

mutual

/-- All places of the tree are taken by filters. -/
def isWellFormed : Filter → Bool
  | .pred _ => true
  | .all filters => areWellFormed filters
  | .any filters => areWellFormed filters
  | .not filter => isWellFormed filter
  | .absent => false
  | .foreign _ => false

def areWellFormed : List Filter → Bool
  | [] => true
  | filter :: rest => isWellFormed filter && areWellFormed rest

end

mutual

/-- The meaning of a well-formed filter. -/
def accepts : Filter → Fields → Bool
  | .pred p, fields => p.holds fields
  | .all filters, fields => acceptsAll filters fields
  | .any filters, fields => acceptsAny filters fields
  | .not filter, fields => !accepts filter fields
  | .absent, _ => true
  | .foreign _, _ => false

def acceptsAll : List Filter → Fields → Bool
  | [], _ => true
  | filter :: rest, fields => accepts filter fields && acceptsAll rest fields

def acceptsAny : List Filter → Fields → Bool
  | [], _ => false
  | filter :: rest, fields => accepts filter fields || acceptsAny rest fields

end

mutual

def isLegible : Filter → Fields → Bool
  | .pred p, fields => p.isLegible fields
  | .all filters, fields => areLegible filters fields
  | .any filters, fields => areLegible filters fields
  | .not filter, fields => isLegible filter fields
  | .absent, _ => true
  | .foreign _, _ => true

def areLegible : List Filter → Fields → Bool
  | [], _ => true
  | filter :: rest, fields => isLegible filter fields && areLegible rest fields

end

mutual

/-- A well-formed filter answers what it means, unless a text is missing for it. -/
theorem evaluate_cases {filter : Filter} (h : filter.isWellFormed = true) (fields : Fields) :
    filter.evaluate fields = .ok (filter.accepts fields) ∨
      (filter.evaluate fields = .error Value.tooLong ∧ filter.isLegible fields = false) := by
  cases filter with
  | pred p =>
      rw [evaluate, accepts, isLegible, Predicate.check]
      cases p.isLegible fields <;> simp
  | all filters =>
      rw [evaluate, accepts, isLegible]
      exact evaluateAll_cases (by simpa [isWellFormed] using h) fields
  | any filters =>
      rw [evaluate, accepts, isLegible]
      exact evaluateAny_cases (by simpa [isWellFormed] using h) fields
  | not filter =>
      rw [evaluate, accepts, isLegible]
      rcases @evaluate_cases filter (by simpa [isWellFormed] using h) fields with
        hf | ⟨hf, hl⟩
      · exact .inl (by rw [hf]; rfl)
      · exact .inr ⟨by rw [hf]; rfl, hl⟩
  | absent => simp [isWellFormed] at h
  | foreign value => simp [isWellFormed] at h

theorem evaluateAll_cases {filters : List Filter} (h : areWellFormed filters = true)
    (fields : Fields) : evaluateAll filters fields = .ok (acceptsAll filters fields) ∨
      (evaluateAll filters fields = .error Value.tooLong ∧ areLegible filters fields = false) := by
  cases filters with
  | nil => exact .inl rfl
  | cons filter rest =>
      simp only [areWellFormed, Bool.and_eq_true] at h
      rw [evaluateAll, acceptsAll, areLegible]
      rcases evaluate_cases h.1 fields with hf | ⟨hf, hl⟩
      · rw [hf]
        cases filter.accepts fields with
        | false => exact .inl rfl
        | true =>
            rcases evaluateAll_cases h.2 fields with hr | ⟨hr, hl⟩
            · exact .inl (by simpa using hr)
            · exact .inr ⟨by simpa using hr, by simp [hl]⟩
      · exact .inr ⟨by rw [hf], by simp [hl]⟩

theorem evaluateAny_cases {filters : List Filter} (h : areWellFormed filters = true)
    (fields : Fields) : evaluateAny filters fields = .ok (acceptsAny filters fields) ∨
      (evaluateAny filters fields = .error Value.tooLong ∧ areLegible filters fields = false) := by
  cases filters with
  | nil => exact .inl rfl
  | cons filter rest =>
      simp only [areWellFormed, Bool.and_eq_true] at h
      rw [evaluateAny, acceptsAny, areLegible]
      rcases evaluate_cases h.1 fields with hf | ⟨hf, hl⟩
      · rw [hf]
        cases filter.accepts fields with
        | true => exact .inl rfl
        | false =>
            rcases evaluateAny_cases h.2 fields with hr | ⟨hr, hl⟩
            · exact .inl (by simpa using hr)
            · exact .inr ⟨by simpa using hr, by simp [hl]⟩
      · exact .inr ⟨by rw [hf], by simp [hl]⟩

end

theorem evaluate_eq_accepts {filter : Filter} {fields : Fields} (h : filter.isWellFormed = true)
    (hl : filter.isLegible fields = true) :
    filter.evaluate fields = .ok (filter.accepts fields) := by
  rcases evaluate_cases h fields with hf | ⟨-, hf⟩
  · exact hf
  · simp [hl] at hf

def equals (field : String) (value : Value) : Filter := .pred ⟨field, .eq, value⟩

/-- Equality with a text can always be told. -/
theorem isLegible_equals_text (field s : String) (fields : Fields) :
    (equals field (.text s)).isLegible fields = true := by
  rw [equals, isLegible, Predicate.isLegible]
  rcases fields.get? field with _ | v
  · rfl
  · cases v <;> rfl

def ofTenant (tenant : String) : Filter := equals Key.tenantId (.text tenant)

end Filter

end Retrieval
