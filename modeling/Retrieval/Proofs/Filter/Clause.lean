import Retrieval.Filter.Clause
import Retrieval.Proofs.Effect.Traversing
import Retrieval.Proofs.Filter.Building
import Retrieval.Proofs.Filter.Legible
import Retrieval.Proofs.Index.Filled

/-!
# What clauses select

Clauses state conditions, one each, and select what meets all of them. The value of a clause is
guessed, but what a record is kept under is text throughout: a clause finds it by its own text,
except where the text reads as a truth value or as a number.
-/

namespace Retrieval

open Text Number

namespace Filter

/-- The text stands for itself: it is no truth value, in whatever case, and no numeral. -/
def readsAsText (text : List Char) : Bool :=
  text.map Char.toLower != "true".toList && text.map Char.toLower != "false".toList &&
    (int? text).isNone && (real? text).isNone

/-- A text equals the value of a clause only if the value is the same text and stays one. -/
theorem agrees_clauseValue (held : String) (text : List Char) :
    (Value.text held).agrees (clauseValue text) =
      (readsAsText text && held == String.ofList text) := by
  unfold clauseValue readsAsText
  by_cases htrue : text.map Char.toLower = "true".toList
  · simp [htrue, Value.agrees, Value.isBool]
  by_cases hfalse : text.map Char.toLower = "false".toList
  · simp [hfalse, Value.agrees, Value.isBool]
  rw [beq_false_of_ne htrue, beq_false_of_ne hfalse, bne_iff_ne.2 htrue, bne_iff_ne.2 hfalse]
  cases int? text with
  | some n => simp [Value.agrees, Value.isBool, Value.isMoment, Value.same, Value.number?]
  | none =>
      cases real? text with
      | some x => simp [Value.agrees, Value.isBool, Value.isMoment, Value.same, Value.number?]
      | none => simp

/-- A name that a clause can give as it is. -/
structure IsClauseField (field : String) : Prop where
  given : field.toList ≠ []
  unmarked : '=' ∉ field.toList
  trimmed : trim field.toList = field.toList

def condition (field value : String) : Predicate :=
  ⟨field, .eq, clauseValue (trim value.toList)⟩

def conditionCall (p : Predicate) : Call := .predicate p.field p.op p.value

theorem clause_eq {field : String} (h : IsClauseField field) (value : String) :
    clause (field ++ "=" ++ value) = .ok (conditionCall (condition field value)) := by
  have htext : (field ++ "=" ++ value).toList = field.toList ++ '=' :: value.toList := by
    simp [String.toList_append]
  rw [clause, htext, cutAt_append h.unmarked]
  cases hfield : field.toList with
  | nil => exact absurd hfield h.given
  | cons c rest =>
      dsimp only
      rw [← hfield, h.trimmed, String.ofList_toList]
      rfl

section Clauses

variable {clauses : List (String × String)}

theorem mapM_clause (h : ∀ p ∈ clauses, IsClauseField p.1) :
    ((clauses.map fun p => p.1 ++ "=" ++ p.2).mapM clause : Outcome (List Call)) =
      .ok ((clauses.map fun p => condition p.1 p.2).map conditionCall) := by
  rw [List.mapM_map, List.map_map]
  exact Outcome.mapM_of_ok fun p hp => clause_eq (h p hp) p.2

theorem answersTo_conditionCall {fields : Fields} {conditions : List Predicate}
    (h : ∀ p ∈ conditions, p.isLegible fields = true) :
    answersTo fields (conditions.map conditionCall) =
      (conditions.map (·.holds fields)).map .ok := by
  induction conditions with
  | nil => rfl
  | cons p rest ih =>
      obtain ⟨hp, hrest⟩ := List.forall_mem_cons.1 h
      have hanswers : (conditionCall p).answers fields = [.ok (p.holds fields)] := by
        rw [conditionCall, Call.answers, Predicate.check, if_pos hp]
      rw [List.map_cons, List.map_cons, List.map_cons, answersTo, ih hrest, hanswers]
      rfl

theorem exists_joinAll {conditions : List Predicate} (hne : conditions ≠ [])
    (hlegible : ∀ p ∈ conditions, ∀ fields, p.isLegible fields = true) :
    ∃ made filter, Builder.empty.applyAll (conditions.map conditionCall) = .ok made ∧
      made.joinAll = .ok filter ∧
      ∀ fields, filter.evaluate fields = .ok (conditions.all (·.holds fields)) := by
  have hleaf : ∀ call ∈ conditions.map conditionCall, call.isLeaf = true := by
    intro call hcall
    obtain ⟨p, -, rfl⟩ := List.mem_map.1 hcall
    rfl
  obtain ⟨made, filter, hmade, hjoin, hmeaning⟩ :=
    exists_joined (List.map_eq_nil_iff.not.2 hne) (haveEmptyGroup_of_isLeaf hleaf) .all
  refine ⟨made, filter, hmade, hjoin, fun fields => ?_⟩
  rw [hmeaning, answersTo_conditionCall fun p hp => hlegible p hp fields, Ending.verdict_map_ok,
    Ending.decides, List.all_map]
  rfl

/-- A clause asks for a text, a truth value or a number, so that no text is ever missing for it. -/
theorem isLegible_condition (key value : String) (fields : Fields) :
    (condition key value).isLegible fields = true := by
  refine Predicate.isLegible_of_isPlain (fun h => by cases h) ?_ fields
  unfold condition clauseValue
  dsimp only
  split
  · rfl
  · rfl
  · split <;> rfl

theorem exists_ofClauses (hne : clauses ≠ []) (h : ∀ p ∈ clauses, IsClauseField p.1) :
    ∃ filter, ofClauses (clauses.map fun p => p.1 ++ "=" ++ p.2) = .ok (some filter) ∧
      ∀ fields, filter.evaluate fields =
        .ok (clauses.all fun p => (condition p.1 p.2).holds fields) := by
  obtain ⟨p, rest, rfl⟩ := List.exists_cons_of_ne_nil hne
  have hconditions : (p :: rest).map (fun p => condition p.1 p.2) ≠ [] :=
    List.map_eq_nil_iff.not.2 hne
  obtain ⟨made, filter, hmade, hjoin, hmeaning⟩ :=
    exists_joinAll hconditions fun condition hcondition fields => by
        obtain ⟨p, -, rfl⟩ := List.mem_map.1 hcondition
        exact isLegible_condition p.1 p.2 fields
  refine ⟨filter, ?_, fun fields => ?_⟩
  · show ((p :: rest).map _).mapM clause >>= _ = _
    rw [mapM_clause h]
    show Builder.applyAll .empty _ >>= _ = _
    rw [hmade]
    show some <$> made.joinAll = _
    rw [hjoin]
    rfl
  · rw [hmeaning, List.all_map]
    rfl

end Clauses

section Identity

variable {r : Record} {key : String}

theorem isClauseField_of_isIdentity (h : Record.isIdentity key) : IsClauseField key := by
  rcases h with rfl | rfl | rfl | rfl <;> exact ⟨by decide, by decide, by decide⟩

/-- A clause on what a record is kept under selects it by its own text, if that is read as text. -/
theorem holds_condition (hr : r.IsIndexed) (hkey : Record.isIdentity key) (value : String) :
    (condition key value).holds r.fields =
      (readsAsText (trim value.toList) &&
        r.fields.display? key == some (String.ofList (trim value.toList))) := by
  obtain ⟨held, hheld⟩ := hr.exists_held hkey
  cases held with
  | none =>
      unfold Predicate.holds Fields.display? condition
      rw [hheld]
      exact (Bool.and_false _).symm
  | some text =>
      have hholds : (condition key value).holds r.fields =
          (Value.text text).agrees (clauseValue (trim value.toList)) := by
        unfold Predicate.holds condition
        rw [hheld]
        rfl
      rw [hholds, agrees_clauseValue, Fields.display?_of_text hheld, Option.some_beq_some]

/-- A record is found by what it is kept under unless one of these texts reads as something else. -/
theorem finds_by_identity (hr : r.IsIndexed) {clauses : List (String × String)}
    (hne : clauses ≠ []) (h : ∀ p ∈ clauses, Record.isIdentity p.1 ∧
      r.fields.display? p.1 = some p.2 ∧ trim p.2.toList = p.2.toList) :
    ∃ filter, ofClauses (clauses.map fun p => p.1 ++ "=" ++ p.2) = .ok (some filter) ∧
      filter.evaluate r.fields = .ok (clauses.all fun p => readsAsText p.2.toList) := by
  obtain ⟨filter, hfilter, hmeaning⟩ :=
    exists_ofClauses hne fun p hp => isClauseField_of_isIdentity (h p hp).1
  refine ⟨filter, hfilter, ?_⟩
  rw [hmeaning, Except.ok.injEq, Bool.eq_iff_iff, List.all_eq_true, List.all_eq_true]
  refine forall₂_congr fun p hp => ?_
  obtain ⟨hkey, hheld, htrim⟩ := h p hp
  rw [holds_condition hr hkey, htrim, hheld, String.ofList_toList, beq_self_eq_true, Bool.and_true]

/-- The document, whose name holds a blank and a mark, and the tenant find the record. -/
theorem finds_guide :
    let r := Record.ofChunk ⟨"acme", some "guide a=1", some "v2", none, .upsert, false⟩
      "2024-03-14T09:30:00Z" ⟨"c1", "alpha", 0, 5, none⟩ [1]
    let clauses := [(Key.docId, "guide a=1"), (Key.versionId, "v2"), (Key.tenantId, "acme")]
    (∀ p ∈ clauses, Record.isIdentity p.1 ∧ r.fields.display? p.1 = some p.2 ∧
      trim p.2.toList = p.2.toList) ∧
    ∃ filter, ofClauses ["docId=guide a=1", "versionId=v2", "tenantId=acme"] = .ok (some filter) ∧
      filter.evaluate r.fields = .ok true := by
  intro r clauses
  have hclauses : ∀ p ∈ clauses, Record.isIdentity p.1 ∧ r.fields.display? p.1 = some p.2 ∧
      trim p.2.toList = p.2.toList := by
    simp only [clauses, List.forall_mem_cons]
    exact ⟨⟨.inl rfl, Fields.display?_of_text (Record.get?_docId_ofChunk _ _ _ _), by decide⟩,
      ⟨.inr (.inr (.inr rfl)), Fields.display?_of_text (Record.get?_versionId_ofChunk _ _ _ _),
        by decide⟩,
      ⟨.inr (.inr (.inl rfl)), Fields.display?_of_text (Record.get?_tenantId_ofChunk _ _ _ _),
        by decide⟩,
      fun _ h => nomatch h⟩
  obtain ⟨filter, hfilter, haccepts⟩ :=
    finds_by_identity (r := r) ⟨_, _, _, _, rfl⟩ (List.cons_ne_nil _ _) hclauses
  have hread : (clauses.all fun p => readsAsText p.2.toList) = true := by decide
  rw [hread] at haccepts
  exact ⟨hclauses, filter, hfilter, haccepts⟩

/-- A document whose name reads as a number is not found by it: the clause asks for the number. -/
theorem numbered_document_is_not_found :
    ¬ ∀ r : Record, r.IsIndexed → ∀ clauses : List (String × String), clauses ≠ [] →
      (∀ p ∈ clauses, Record.isIdentity p.1 ∧ r.fields.display? p.1 = some p.2 ∧
        trim p.2.toList = p.2.toList) →
      ∃ filter, ofClauses (clauses.map fun p => p.1 ++ "=" ++ p.2) = .ok (some filter) ∧
        filter.evaluate r.fields = .ok true := by
  intro hall
  let r := Record.ofChunk ⟨"acme", some "42", none, none, .upsert, false⟩
    "2024-03-14T09:30:00Z" ⟨"c1", "alpha", 0, 5, none⟩ [1]
  have hclauses : ∀ p ∈ [(Key.docId, "42")], Record.isIdentity p.1 ∧
      r.fields.display? p.1 = some p.2 ∧ trim p.2.toList = p.2.toList := by
    simp only [List.forall_mem_cons]
    exact ⟨⟨.inl rfl, Fields.display?_of_text (Record.get?_docId_ofChunk _ _ _ _), by decide⟩,
      fun _ h => nomatch h⟩
  obtain ⟨filter, hfilter, haccepts⟩ :=
    hall r ⟨_, _, _, _, rfl⟩ [(Key.docId, "42")] (List.cons_ne_nil _ _) hclauses
  obtain ⟨same, hsame, hmeaning⟩ := exists_ofClauses (List.cons_ne_nil _ _) fun p hp =>
    isClauseField_of_isIdentity (hclauses p hp).1
  obtain rfl : same = filter := Option.some.inj (Except.ok.inj (hsame.symm.trans hfilter))
  rw [hmeaning, List.all_cons, holds_condition ⟨_, _, _, _, rfl⟩ (.inl rfl)] at haccepts
  have hnumeral : readsAsText (trim "42".toList) = false := by decide
  rw [hnumeral] at haccepts
  cases haccepts

end Identity

end Filter

end Retrieval
