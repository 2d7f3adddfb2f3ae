import Retrieval.Filter.Where

/-!
# Where no text is missing

Comparing a value with a text, a number or a truth value never needs the text of an illegible value.
So neither does a filter that is pushed down exactly, for these are the values pushed down. Fields
pass a filter that comes out true of them; of fields that it can be told of these are the accepted.
-/

namespace Retrieval

open Pushdown

theorem Value.comparesLegibly_of_isPlain {v : Value} (h : isPlain v = true) (actual : Value) :
    actual.comparesLegibly v = true := by
  have hmoment : v.isMoment = false := by cases v <;> first | rfl | cases h
  have hdatable : v.isDatable = true := by cases v <;> first | rfl | cases h
  rw [comparesLegibly, hmoment, hdatable]
  cases actual <;> rfl

theorem Pushdown.isPlain_of_isNumber {v : Value} (h : isNumber v = true) : isPlain v = true := by
  cases v <;> first | rfl | cases h

namespace Predicate

section Held

variable {p : Predicate} {fields : Fields} {v : Value}

theorem holds_of_get? (hv : v ≠ .null) (h : fields.get? p.field = some v) :
    p.holds fields = p.test v := by
  rw [holds, h]
  cases v <;> first | rfl | exact absurd rfl hv

theorem isLegible_of_get? (hv : v ≠ .null) (h : fields.get? p.field = some v) :
    p.isLegible fields = p.testsLegibly v := by
  rw [isLegible, h]
  cases v <;> first | rfl | exact absurd rfl hv

theorem check_of_get? (hv : v ≠ .null) (h : fields.get? p.field = some v)
    (hlegible : p.testsLegibly v = true) : p.check fields = .ok (p.test v) := by
  rw [check, isLegible_of_get? hv h, if_pos hlegible, holds_of_get? hv h]

end Held

theorem testsLegibly_of_isDatable {p : Predicate} {actual other : Value} (hop : p.op ≠ .contains)
    (ha : actual.isDatable = true) (ho : other.isDatable = true) (hp : p.value.isDatable = true) :
    p.testsLegibly actual = p.testsLegibly other := by
  unfold testsLegibly
  split
  · next hcontains => exact absurd hcontains hop
  · rw [Value.comparesLegibly, Value.comparesLegibly, ha, ho, hp]
    simp

theorem isLegible_of_testsLegibly {p : Predicate} (h : ∀ actual, p.testsLegibly actual = true)
    (fields : Fields) : p.isLegible fields = true := by
  unfold isLegible
  split
  · rfl
  · rfl
  · exact h _

theorem isLegible_of_isPlain {p : Predicate} (hop : p.op ≠ .contains) (h : isPlain p.value = true)
    (fields : Fields) : p.isLegible fields = true := by
  refine isLegible_of_testsLegibly (fun actual => ?_) fields
  unfold testsLegibly
  split
  · next hcontains => exact absurd hcontains hop
  · exact Value.comparesLegibly_of_isPlain h actual

theorem isLegible_of_exact {p : Predicate} (h : (ofPredicate p).exact = true) (fields : Fields) :
    p.isLegible fields = true := by
  obtain ⟨field, op, value⟩ := p
  cases op with
  | eq =>
      by_cases hplain : isPlain value = true
      · exact isLegible_of_isPlain (fun h => by cases h) hplain fields
      · rw [ofPredicate, if_neg hplain] at h
        cases h
  | gt | gte | lt | lte =>
      by_cases hnumber : isNumber value = true
      · exact isLegible_of_isPlain (fun h => by cases h) (isPlain_of_isNumber hnumber) fields
      · rw [ofPredicate, if_neg hnumber] at h
        cases h
  | ne | contains => cases h

end Predicate

theorem Pushdown.all_exact_of_join {disjoint : Bool} {parts : List Pushdown}
    (h : (join disjoint parts).exact = true) : parts.all (·.exact) = true := by
  unfold join at h
  split at h
  · cases h
  · dsimp only at h
    split at h
    · cases h
    · split at h <;> exact h

namespace Filter

mutual

/-- What is pushed down exactly can be told of all fields. -/
theorem isLegible_of_exact {filter : Filter} {negated : Bool} {t : Pushdown}
    (h : filter.pushDown negated = .ok t) (hexact : t.exact = true) (fields : Fields) :
    filter.isLegible fields = true := by
  cases filter with
  | pred p =>
      cases h
      cases negated with
      | true => cases hexact
      | false =>
          rw [isLegible]
          exact Predicate.isLegible_of_exact hexact fields
  | not filter =>
      rw [isLegible]
      exact isLegible_of_exact (by rwa [pushDown] at h) hexact fields
  | all filters | any filters =>
      rw [pushDown] at h
      cases hparts : pushDownAll negated filters with
      | error fault =>
          rw [hparts] at h
          cases h
      | ok parts =>
          rw [hparts] at h
          cases h
          rw [isLegible]
          exact areLegible_of_exact hparts (all_exact_of_join hexact) fields
  | absent => cases h
  | foreign value => cases h

theorem areLegible_of_exact {filters : List Filter} {negated : Bool} {parts : List Pushdown}
    (h : pushDownAll negated filters = .ok parts) (hexact : parts.all (·.exact) = true)
    (fields : Fields) : areLegible filters fields = true := by
  cases filters with
  | nil => rw [areLegible]
  | cons filter rest =>
      rw [pushDownAll] at h
      cases hfirst : filter.pushDown negated with
      | error fault =>
          rw [hfirst] at h
          cases h
      | ok part =>
          rw [hfirst] at h
          cases hrest : pushDownAll negated rest with
          | error fault =>
              rw [hrest] at h
              cases h
          | ok others =>
              rw [hrest] at h
              cases h
              rw [List.all_cons, Bool.and_eq_true] at hexact
              rw [areLegible, isLegible_of_exact hfirst hexact.1 fields,
                areLegible_of_exact hrest hexact.2 fields]
              rfl

end

section Passing

variable {filter : Filter} {fields : Fields}

def passes (filter : Filter) (fields : Fields) : Bool :=
  (filter.evaluate fields).toOption == some true

theorem passes_of_evaluate {b : Bool} (h : filter.evaluate fields = .ok b) :
    filter.passes fields = b := by
  rw [passes, h]
  cases b <;> rfl

theorem passes_of_isLegible (hf : filter.isWellFormed = true)
    (hl : filter.isLegible fields = true) : filter.passes fields = filter.accepts fields :=
  passes_of_evaluate (evaluate_eq_accepts hf hl)

theorem accepts_of_passes (hf : filter.isWellFormed = true) (h : filter.passes fields = true) :
    filter.accepts fields = true := by
  rcases evaluate_cases hf fields with heval | ⟨heval, -⟩
  · rwa [passes_of_evaluate heval] at h
  · rw [passes, heval] at h
    cases h

end Passing

end Filter

end Retrieval
