import Retrieval.Proofs.Filter.Legible

/-!
# What is pushed down to a store

A pushdown stands for a condition if it selects all that meets the condition and, once it is called
exact, nothing else. Groups of pushdowns stand for groups of conditions, and a negation turns one
kind of group into the other, so the induction over a filter carries both signs at once.
-/

namespace Retrieval

namespace Where

theorem selectsAll_eq (clauses : List Where) (fields : Fields) :
    selectsAll clauses fields = clauses.all (·.selects fields) := by
  induction clauses with
  | nil => rfl
  | cons w rest ih => rw [selectsAll, ih, List.all_cons]

theorem selectsAny_eq (clauses : List Where) (fields : Fields) :
    selectsAny clauses fields = clauses.any (·.selects fields) := by
  induction clauses with
  | nil => rfl
  | cons w rest ih => rw [selectsAny, ih, List.any_cons]

mutual

/-- Groups have two members at least, and leaves are equality with scalars or comparison with
numbers. -/
def isCanonical : Where → Bool
  | .leaf _ .eq value => Pushdown.isPlain value
  | .leaf _ .gt value | .leaf _ .gte value | .leaf _ .lt value | .leaf _ .lte value =>
      Pushdown.isNumber value
  | .leaf _ .ne _ | .leaf _ .contains _ => false
  | .all clauses => 2 ≤ clauses.length && areCanonical clauses
  | .any clauses => 2 ≤ clauses.length && areCanonical clauses

def areCanonical : List Where → Bool
  | [] => true
  | clause :: rest => isCanonical clause && areCanonical rest

end

theorem areCanonical_eq (clauses : List Where) :
    areCanonical clauses = clauses.all (·.isCanonical) := by
  induction clauses with
  | nil => simp [areCanonical]
  | cons w rest ih => rw [areCanonical, ih, List.all_cons]

end Where

namespace Filter

theorem acceptsAll_eq (filters : List Filter) (fields : Fields) :
    acceptsAll filters fields = filters.all (·.accepts fields) := by
  induction filters with
  | nil => rfl
  | cons f rest ih => rw [acceptsAll, ih, List.all_cons]

theorem acceptsAny_eq (filters : List Filter) (fields : Fields) :
    acceptsAny filters fields = filters.any (·.accepts fields) := by
  induction filters with
  | nil => rfl
  | cons f rest ih => rw [acceptsAny, ih, List.any_cons]

end Filter

namespace Pushdown

def selects (t : Pushdown) (fields : Fields) : Bool :=
  match t.clause with
  | none => true
  | some w => w.selects fields

structure StandsFor (t : Pushdown) (meaning : Fields → Bool) : Prop where
  sound : ∀ fields, meaning fields = true → t.selects fields = true
  complete : t.exact = true → ∀ fields, t.selects fields = true → meaning fields = true
  constrained : t.clause = none → t.exact = false
  canonical : ∀ w, t.clause = some w → w.isCanonical = true

theorem standsFor_none (meaning : Fields → Bool) : StandsFor ⟨none, false⟩ meaning where
  sound _ _ := rfl
  complete h := nomatch h
  constrained _ := rfl
  canonical _ h := nomatch h

theorem standsFor_leaf {p : Predicate}
    (h : (Where.leaf p.field p.op p.value).isCanonical = true) :
    StandsFor ⟨some (.leaf p.field p.op p.value), true⟩ p.holds where
  sound fields hp := by
    rw [selects]
    dsimp only
    rwa [Where.selects]
  complete _ fields hs := by
    rw [selects] at hs
    dsimp only at hs
    rwa [Where.selects] at hs
  constrained h := nomatch h
  canonical w hw := by
    cases hw
    exact h

theorem standsFor_ofPredicate (p : Predicate) : (ofPredicate p).StandsFor p.holds := by
  obtain ⟨field, op, value⟩ := p
  cases op with
  | eq =>
      by_cases h : isPlain value = true
      · rw [ofPredicate, if_pos h]
        exact standsFor_leaf h
      · rw [ofPredicate, if_neg h]
        exact standsFor_none _
  | gt | gte | lt | lte =>
      by_cases h : isNumber value = true
      · rw [ofPredicate, if_pos h]
        exact standsFor_leaf h
      · rw [ofPredicate, if_neg h]
        exact standsFor_none _
  | ne | contains => exact standsFor_none _

def combine (disjoint : Bool) (meanings : List (Fields → Bool)) (fields : Fields) : Bool :=
  if disjoint then meanings.any (· fields) else meanings.all (· fields)

theorem group_cons_cons (disjoint : Bool) (v w : Where) (rest : List Where) :
    group disjoint (v :: w :: rest) =
      if disjoint then .any (v :: w :: rest) else .all (v :: w :: rest) := rfl

theorem selects_group (disjoint : Bool) (clauses : List Where) (fields : Fields) :
    (group disjoint clauses).selects fields =
      combine disjoint (clauses.map fun w => w.selects) fields := by
  rw [combine, List.any_map, List.all_map]
  cases disjoint with
  | true =>
      rw [if_pos rfl]
      match clauses with
      | [] => rfl
      | [w] => simp [group]
      | v :: w :: rest =>
          rw [group_cons_cons, if_pos rfl, Where.selects, Where.selectsAny_eq]
          rfl
  | false =>
      rw [if_neg Bool.false_ne_true]
      match clauses with
      | [] => rfl
      | [w] => simp [group]
      | v :: w :: rest =>
          rw [group_cons_cons, if_neg Bool.false_ne_true, Where.selects, Where.selectsAll_eq]
          rfl

theorem isCanonical_group (disjoint : Bool) {clauses : List Where} (hne : clauses ≠ [])
    (h : ∀ w ∈ clauses, w.isCanonical = true) : (group disjoint clauses).isCanonical = true := by
  match clauses with
  | [] => exact absurd rfl hne
  | [w] => exact h w List.mem_cons_self
  | v :: w :: rest =>
      have hall : Where.areCanonical (v :: w :: rest) = true := by
        rw [Where.areCanonical_eq, List.all_eq_true]
        exact h
      rw [group_cons_cons]
      cases disjoint <;> simp [Where.isCanonical, hall]

theorem selects_of_clause {t : Pushdown} {w : Where} (h : t.clause = some w) (fields : Fields) :
    t.selects fields = w.selects fields := by
  rw [selects, h]

section Join

variable {disjoint : Bool} {members : List (Pushdown × (Fields → Bool))} {clauses : List Where}

/-- A conjunction may leave out conditions that are not pushed down, a disjunction may not. -/
theorem sound_group (h : ∀ q ∈ members, q.1.StandsFor q.2)
    (hc : ∀ w, w ∈ clauses ↔ ∃ q ∈ members, q.1.clause = some w)
    (hfull : disjoint = true → ∀ q ∈ members, ∃ w, q.1.clause = some w) (fields : Fields)
    (hm : combine disjoint (members.map (·.2)) fields = true) :
    combine disjoint (clauses.map fun w => w.selects) fields = true := by
  cases disjoint with
  | true =>
      simp only [combine, if_true, List.any_map, List.any_eq_true] at hm ⊢
      obtain ⟨q, hq, hqm⟩ := hm
      obtain ⟨w, hw⟩ := hfull rfl q hq
      refine ⟨w, (hc w).2 ⟨q, hq, hw⟩, ?_⟩
      rw [Function.comp_apply, ← selects_of_clause hw]
      exact (h q hq).sound fields hqm
  | false =>
      simp only [combine, Bool.false_eq_true, if_false, List.all_map, List.all_eq_true] at hm ⊢
      intro w hw
      obtain ⟨q, hq, hqw⟩ := (hc w).1 hw
      rw [Function.comp_apply, ← selects_of_clause hqw]
      exact (h q hq).sound fields (hm q hq)

/-- Exact members have clauses, and these select just what the group of conditions accepts. -/
theorem complete_group (h : ∀ q ∈ members, q.1.StandsFor q.2)
    (hc : ∀ w, w ∈ clauses ↔ ∃ q ∈ members, q.1.clause = some w)
    (hexact : ∀ q ∈ members, q.1.exact = true) (fields : Fields)
    (hs : combine disjoint (clauses.map fun w => w.selects) fields = true) :
    combine disjoint (members.map (·.2)) fields = true := by
  cases disjoint with
  | true =>
      simp only [combine, if_true, List.any_map, List.any_eq_true] at hs ⊢
      obtain ⟨w, hw, hws⟩ := hs
      obtain ⟨q, hq, hqw⟩ := (hc w).1 hw
      refine ⟨q, hq, (h q hq).complete (hexact q hq) fields ?_⟩
      rw [selects_of_clause hqw]
      exact hws
  | false =>
      simp only [combine, Bool.false_eq_true, if_false, List.all_map, List.all_eq_true] at hs ⊢
      intro q hq
      cases hclause : q.1.clause with
      | none => exact absurd ((h q hq).constrained hclause) (by rw [hexact q hq]; decide)
      | some w =>
          refine (h q hq).complete (hexact q hq) fields ?_
          rw [selects_of_clause hclause]
          exact hs w ((hc w).2 ⟨q, hq, hclause⟩)

theorem inexact_of_no_clause (h : ∀ q ∈ members, q.1.StandsFor q.2)
    (hc : ∀ w, w ∈ clauses ↔ ∃ q ∈ members, q.1.clause = some w)
    (hne : ¬ (members.map (·.1)).isEmpty = true) (hnone : clauses = []) :
    (members.map (·.1)).all (·.exact) = false := by
  cases members with
  | nil => exact absurd rfl hne
  | cons q rest =>
      have hq : q.1.exact = false := by
        refine (h q List.mem_cons_self).constrained
          (Option.eq_none_iff_forall_not_mem.2 fun w hw => ?_)
        have := (hc w).2 ⟨q, List.mem_cons_self, hw⟩
        rw [hnone] at this
        cases this
      rw [List.map_cons, List.all_cons, hq, Bool.false_and]

theorem StandsFor.join (disjoint : Bool) (h : ∀ q ∈ members, q.1.StandsFor q.2) :
    (join disjoint (members.map (·.1))).StandsFor (combine disjoint (members.map (·.2))) := by
  have hc (w : Where) : w ∈ (members.map (·.1)).filterMap (·.clause) ↔
      ∃ q ∈ members, q.1.clause = some w := by
    rw [List.filterMap_map]
    exact List.mem_filterMap
  have hall (he : (members.map (·.1)).all (·.exact) = true) : ∀ q ∈ members, q.1.exact = true := by
    rw [List.all_map, List.all_eq_true] at he
    exact he
  rw [Pushdown.join]
  dsimp only
  by_cases hempty : (members.map (·.1)).isEmpty = true
  · rw [if_pos hempty]
    exact standsFor_none _
  rw [if_neg hempty]
  by_cases hopen : (disjoint && decide (((members.map (·.1)).filterMap (·.clause)).length <
      (members.map (·.1)).length)) = true
  · rw [if_pos hopen]
    exact standsFor_none _
  rw [if_neg hopen]
  by_cases hnone : ((members.map (·.1)).filterMap (·.clause)).isEmpty = true
  · rw [if_pos hnone]
    rw [inexact_of_no_clause h hc hempty (List.isEmpty_iff.1 hnone)]
    exact standsFor_none _
  rw [if_neg hnone]
  have hfull (hd : disjoint = true) : ∀ q ∈ members, ∃ w, q.1.clause = some w := by
    intro q hq
    rw [hd, Bool.true_and, decide_eq_true_eq, Nat.not_lt] at hopen
    have hlen := Nat.le_antisymm (List.length_filterMap_le _ _) hopen
    rw [List.filterMap_length_eq_length] at hlen
    exact Option.isSome_iff_exists.1 (hlen q.1 (List.mem_map_of_mem hq))
  refine ⟨fun fields hm => ?_, fun he fields hs => ?_, fun hn => (nomatch hn), fun w hw => ?_⟩
  · rw [selects_of_clause rfl, selects_group]
    exact sound_group h hc hfull fields hm
  · rw [selects_of_clause rfl, selects_group] at hs
    exact complete_group h hc (hall he) fields hs
  · cases hw
    refine isCanonical_group disjoint (fun hn => hnone (List.isEmpty_iff.2 hn)) fun w hw => ?_
    obtain ⟨q, hq, hqw⟩ := (hc w).1 hw
    exact (h q hq).canonical w hqw

end Join

end Pushdown

namespace Filter

open Pushdown

def signed (negated : Bool) (filter : Filter) (fields : Fields) : Bool :=
  filter.accepts fields != negated

theorem signed_all (negated : Bool) (filters : List Filter) :
    signed negated (.all filters) = combine negated (filters.map (signed negated)) := by
  funext fields
  rw [signed, accepts, acceptsAll_eq, combine, List.any_map, List.all_map]
  cases negated with
  | true => simp [signed, Function.comp_def, List.not_all_eq_any_not]
  | false => simp [signed, Function.comp_def]

theorem signed_any (negated : Bool) (filters : List Filter) :
    signed negated (.any filters) = combine (!negated) (filters.map (signed negated)) := by
  funext fields
  rw [signed, accepts, acceptsAny_eq, combine, List.any_map, List.all_map]
  cases negated with
  | true => simp [signed, Function.comp_def, List.not_any_eq_all_not]
  | false => simp [signed, Function.comp_def]

theorem signed_not (negated : Bool) (filter : Filter) :
    signed negated (.not filter) = signed (!negated) filter := by
  funext fields
  rw [signed, signed, accepts]
  cases filter.accepts fields <;> cases negated <;> rfl

mutual

theorem standsFor_pushDown {filter : Filter} (h : filter.isWellFormed = true) (negated : Bool) :
    ∃ t, filter.pushDown negated = .ok t ∧ t.StandsFor (signed negated filter) := by
  cases filter with
  | pred p =>
      cases negated with
      | true => exact ⟨_, rfl, standsFor_none _⟩
      | false =>
          refine ⟨_, rfl, ?_⟩
          have hp : signed false (.pred p) = p.holds := by
            funext fields
            simp [signed, accepts]
          rw [hp]
          exact standsFor_ofPredicate p
  | not filter =>
      rw [signed_not, pushDown]
      exact standsFor_pushDown (by simpa [isWellFormed] using h) (!negated)
  | all filters =>
      obtain ⟨members, he, hm, hs⟩ :=
        standsFor_pushDownAll (by simpa [isWellFormed] using h) negated
      rw [signed_all, ← hm, pushDown, he]
      exact ⟨_, rfl, .join negated hs⟩
  | any filters =>
      obtain ⟨members, he, hm, hs⟩ :=
        standsFor_pushDownAll (by simpa [isWellFormed] using h) negated
      rw [signed_any, ← hm, pushDown, he]
      exact ⟨_, rfl, .join (!negated) hs⟩
  | absent => simp [isWellFormed] at h
  | foreign value => simp [isWellFormed] at h

theorem standsFor_pushDownAll {filters : List Filter} (h : areWellFormed filters = true)
    (negated : Bool) : ∃ members : List (Pushdown × (Fields → Bool)),
      pushDownAll negated filters = .ok (members.map (·.1)) ∧
      members.map (·.2) = filters.map (signed negated) ∧ ∀ q ∈ members, q.1.StandsFor q.2 := by
  cases filters with
  | nil => exact ⟨[], rfl, rfl, fun _ hq => nomatch hq⟩
  | cons filter rest =>
      simp only [areWellFormed, Bool.and_eq_true] at h
      obtain ⟨t, ht, hts⟩ := standsFor_pushDown h.1 negated
      obtain ⟨members, he, hm, hs⟩ := standsFor_pushDownAll h.2 negated
      refine ⟨(t, signed negated filter) :: members, ?_, ?_, List.forall_mem_cons.2 ⟨hts, hs⟩⟩
      · rw [pushDownAll, ht, he]
        rfl
      · rw [List.map_cons, List.map_cons, hm]

end

/-- Pushing a filter down under either sign gives a clause that selects all the records the filter
accepts under that sign, and no others once it is called exact. What is called exact always has an
answer; a filter without an answer wants the text of an illegible value. -/
theorem pushDown_translates {filter : Filter} (h : filter.isWellFormed = true) (negated : Bool) :
    ∃ t, filter.pushDown negated = .ok t ∧
      (∀ fields, (∃ b, filter.evaluate fields = .ok b ∧
          ((b != negated) = true → t.selects fields = true) ∧
          (t.exact = true → t.selects fields = true → (b != negated) = true)) ∨
        (filter.evaluate fields = .error Value.tooLong ∧ filter.isLegible fields = false ∧
          t.exact = false)) ∧
      (t.clause = none → t.exact = false) ∧
      ∀ w, t.clause = some w → w.isCanonical = true := by
  obtain ⟨t, ht, hs⟩ := standsFor_pushDown h negated
  refine ⟨t, ht, fun fields => ?_, hs.constrained, hs.canonical⟩
  rcases evaluate_cases h fields with hanswer | ⟨herror, hlegible⟩
  · exact .inl ⟨_, hanswer, hs.sound fields, fun he => hs.complete he fields⟩
  · refine .inr ⟨herror, hlegible, Bool.eq_false_iff.2 fun he => ?_⟩
    rw [isLegible_of_exact ht he fields] at hlegible
    cases hlegible

/-- The first condition is pushed down through two negations, the second one is not. -/
theorem pushDown_translates_final_not_old :
    let filter : Filter := .not (.any [.not (equals "state" (.text "final")),
      .pred ⟨"title", .contains, .text "old"⟩])
    filter.isWellFormed = true ∧
      filter.pushDown false = .ok ⟨some (.leaf "state" .eq (.text "final")), false⟩ ∧
      ∀ fields, (filter.evaluate fields = .ok true →
          (fields.get? "state").any (·.agrees (.text "final")) = true) ∧
        (filter.evaluate fields = .ok true ∨ filter.evaluate fields = .ok false ∨
          (filter.evaluate fields = .error Value.tooLong ∧ filter.isLegible fields = false)) := by
  intro filter
  have hwell : filter.isWellFormed = true := by decide
  obtain ⟨t, ht, hfields, -, -⟩ := pushDown_translates hwell false
  have hclause : filter.pushDown false =
      .ok ⟨some (.leaf "state" .eq (.text "final")), false⟩ := rfl
  obtain rfl := Except.ok.inj (ht.symm.trans hclause)
  refine ⟨hwell, hclause, fun fields => ?_⟩
  rcases hfields fields with ⟨b, hb, hsound, -⟩ | ⟨herror, hlegible, -⟩
  · refine ⟨fun htrue => ?_, ?_⟩
    · obtain rfl : b = true := Except.ok.inj (hb.symm.trans htrue)
      have hselects : (Where.leaf "state" .eq (.text "final")).selects fields = true := hsound rfl
      rw [Where.selects, Predicate.holds] at hselects
      dsimp only at hselects
      rcases hstate : fields.get? "state" with _ | actual
      · rw [hstate] at hselects
        cases hselects
      · rw [hstate] at hselects
        cases actual <;> exact hselects
    · cases b with
      | true => exact .inl hb
      | false => exact .inr (.inl hb)
  · refine ⟨fun htrue => ?_, .inr (.inr ⟨herror, hlegible⟩)⟩
    cases herror.symm.trans htrue

end Filter

end Retrieval
