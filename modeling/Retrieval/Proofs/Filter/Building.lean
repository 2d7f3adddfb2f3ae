import Mathlib.Data.List.Forall2
import Retrieval.Filter.Builder

/-!
# What steps of building add

Each step adds filters to a builder, whatever the builder holds already, and each of the filters has
an answer of its own: a range has two, one for each bound, and a group answers for its own steps. An
answer is the truth of the matter, or it is missing for want of a text. Steps fail only at a group
without steps.
-/

namespace Retrieval.Filter

inductive Ending
  | all
  | any
  | not
deriving DecidableEq

namespace Ending

def word : Ending → String
  | .all => "and"
  | .any => "or"
  | .not => "not"

def decides : Ending → List Bool → Bool
  | .all, truths => truths.all id
  | .any, truths => truths.any id
  | .not, truths => !truths.all id

/-- Answers are read up to the first that is not the one that goes without saying. -/
def firstOther (plain : Bool) : List (Outcome Bool) → Outcome Bool
  | [] => .ok plain
  | .error fault :: _ => .error fault
  | .ok answer :: rest => if answer = plain then firstOther plain rest else .ok answer

def verdict : Ending → List (Outcome Bool) → Outcome Bool
  | .all, answers => firstOther true answers
  | .any, answers => firstOther false answers
  | .not, answers => (firstOther true answers).map (!·)

/-- The filters collected, joined without regard to their number. -/
def join : Ending → List Filter → Filter
  | .all, filters => .all filters
  | .any, filters => .any filters
  | .not, filters => .not (.all filters)

/-- An answer is what is true, unless it is missing for want of a text. -/
def Tells (answer : Outcome Bool) (truth : Bool) : Prop :=
  answer = .ok truth ∨ answer = .error Value.tooLong

theorem firstOther_tells {answers : List (Outcome Bool)} {truths : List Bool}
    (h : List.Forall₂ Tells answers truths) :
    Tells (firstOther true answers) (truths.all id) ∧
      Tells (firstOther false answers) (truths.any id) := by
  induction h with
  | nil => exact ⟨.inl rfl, .inl rfl⟩
  | @cons answer truth _ _ hfirst _ ih =>
      rcases hfirst with rfl | rfl
      · cases truth with
        | true => exact ⟨ih.1, .inl rfl⟩
        | false => exact ⟨.inl rfl, ih.2⟩
      · exact ⟨.inr rfl, .inr rfl⟩

theorem verdict_tells {answers : List (Outcome Bool)} {truths : List Bool} (ending : Ending)
    (h : List.Forall₂ Tells answers truths) :
    Tells (ending.verdict answers) (ending.decides truths) := by
  cases ending with
  | all => exact (firstOther_tells h).1
  | any => exact (firstOther_tells h).2
  | not =>
      rw [verdict, decides]
      rcases (firstOther_tells h).1 with hall | hall
      · exact .inl (by rw [hall]; rfl)
      · exact .inr (by rw [hall]; rfl)

theorem firstOther_map_ok (truths : List Bool) :
    firstOther true (truths.map .ok) = .ok (truths.all id) ∧
      firstOther false (truths.map .ok) = .ok (truths.any id) := by
  induction truths with
  | nil => exact ⟨rfl, rfl⟩
  | cons truth rest ih =>
      cases truth with
      | true => exact ⟨ih.1, rfl⟩
      | false => exact ⟨rfl, ih.2⟩

theorem firstOther_map_ok_append (truths : List Bool) (more : List (Outcome Bool)) :
    firstOther false (truths.map .ok ++ more) =
      if truths.any id then .ok true else firstOther false more := by
  induction truths with
  | nil => rfl
  | cons truth rest ih =>
      cases truth with
      | true => rfl
      | false => exact ih

theorem verdict_map_ok (ending : Ending) (truths : List Bool) :
    ending.verdict (truths.map .ok) = .ok (ending.decides truths) := by
  cases ending with
  | all => exact (firstOther_map_ok truths).1
  | any => exact (firstOther_map_ok truths).2
  | not =>
      rw [verdict, (firstOther_map_ok truths).1]
      rfl

end Ending

section Groups

variable (filters : List Filter) (fields : Fields)

theorem evaluateAll_eq_firstOther : evaluateAll filters fields =
    Ending.firstOther true (filters.map (·.evaluate fields)) := by
  induction filters with
  | nil => rfl
  | cons filter rest ih =>
      rw [evaluateAll, List.map_cons]
      rcases filter.evaluate fields with fault | _ | _
      · rfl
      · rfl
      · exact ih

theorem evaluateAny_eq_firstOther : evaluateAny filters fields =
    Ending.firstOther false (filters.map (·.evaluate fields)) := by
  induction filters with
  | nil => rfl
  | cons filter rest ih =>
      rw [evaluateAny, List.map_cons]
      rcases filter.evaluate fields with fault | _ | _
      · rfl
      · exact ih
      · rfl

theorem evaluate_join (ending : Ending) :
    (ending.join filters).evaluate fields = ending.verdict (filters.map (·.evaluate fields)) := by
  cases ending with
  | all => exact evaluateAll_eq_firstOther filters fields
  | any => exact evaluateAny_eq_firstOther filters fields
  | not =>
      rw [Ending.join, evaluate, evaluate, evaluateAll_eq_firstOther]
      rfl

end Groups

namespace Builder

def finish (b : Builder) : Ending → Outcome Filter
  | .all => b.joinAll
  | .any => b.joinAny
  | .not => b.negation

theorem finish_of_nil {b : Builder} (h : b.nodes = []) (ending : Ending) :
    b.finish ending = .error (emptyFault ending.word) := by
  obtain ⟨nodes⟩ := b
  cases h
  cases ending <;> rfl

theorem evaluate_all_single (filter : Filter) (fields : Fields) :
    (Filter.all [filter]).evaluate fields = filter.evaluate fields := by
  rw [evaluate, evaluateAll]
  split
  · next h => rw [h]; rfl
  · rfl

theorem evaluate_any_single (filter : Filter) (fields : Fields) :
    (Filter.any [filter]).evaluate fields = filter.evaluate fields := by
  rw [evaluate, evaluateAny]
  split
  · next h => rw [h]; rfl
  · rfl

/-- Whether a single filter is joined or stands for itself makes no difference. -/
theorem exists_finish {b : Builder} (h : b.nodes ≠ []) (ending : Ending) :
    ∃ filter, b.finish ending = .ok filter ∧
      ∀ fields, filter.evaluate fields = (ending.join b.nodes).evaluate fields := by
  obtain ⟨nodes⟩ := b
  cases nodes with
  | nil => exact absurd rfl h
  | cons filter rest =>
      cases rest with
      | nil =>
          cases ending with
          | all => exact ⟨filter, rfl, fun fields => (evaluate_all_single filter fields).symm⟩
          | any => exact ⟨filter, rfl, fun fields => (evaluate_any_single filter fields).symm⟩
          | not =>
              refine ⟨.not filter, rfl, fun fields => ?_⟩
              rw [Ending.join, evaluate, evaluate, evaluate_all_single]
      | cons other rest => cases ending <;> exact ⟨_, rfl, fun _ => rfl⟩

theorem evaluate_finish {b : Builder} {ending : Ending} {filter : Filter}
    (h : b.finish ending = .ok filter) (fields : Fields) :
    filter.evaluate fields = (ending.join b.nodes).evaluate fields := by
  by_cases hnodes : b.nodes = []
  · rw [finish_of_nil hnodes] at h
    cases h
  · obtain ⟨same, hsame, hmeaning⟩ := exists_finish hnodes ending
    obtain rfl : same = filter := Except.ok.inj (hsame.symm.trans h)
    exact hmeaning fields

theorem applyAll_append (b : Builder) (calls more : List Call) :
    b.applyAll (calls ++ more) = (b.applyAll calls).bind fun made => made.applyAll more := by
  induction calls generalizing b with
  | nil => rfl
  | cons call rest ih =>
      rw [List.cons_append, applyAll, applyAll]
      cases b.apply call with
      | error f => rfl
      | ok next => exact ih next

theorem applyAll_single (b : Builder) (call : Call) : b.applyAll [call] = b.apply call := by
  rw [applyAll]
  cases b.apply call <;> rfl

theorem apply_allGroup (b : Builder) (calls : List Call) :
    b.apply (.allGroup calls) =
      (Builder.empty.applyAll calls).bind fun group => (group.finish .all).map b.append := by
  rw [apply]
  cases Builder.empty.applyAll calls <;> rfl

theorem apply_anyGroup (b : Builder) (calls : List Call) :
    b.apply (.anyGroup calls) =
      (Builder.empty.applyAll calls).bind fun group => (group.finish .any).map b.append := by
  rw [apply]
  cases Builder.empty.applyAll calls <;> rfl

end Builder

mutual

/-- What is true of the filters that a step adds. -/
def Call.truths (fields : Fields) : Call → List Bool
  | .predicate field op value => [(Predicate.mk field op value).holds fields]
  | .range field low high =>
      [(Predicate.mk field .gte low).holds fields, (Predicate.mk field .lte high).holds fields]
  | .allGroup calls => [Ending.all.decides (truthsOf fields calls)]
  | .anyGroup calls => [Ending.any.decides (truthsOf fields calls)]

def truthsOf (fields : Fields) : List Call → List Bool
  | [] => []
  | call :: rest => call.truths fields ++ truthsOf fields rest

end

mutual

def Call.answers (fields : Fields) : Call → List (Outcome Bool)
  | .predicate field op value => [(Predicate.mk field op value).check fields]
  | .range field low high =>
      [(Predicate.mk field .gte low).check fields, (Predicate.mk field .lte high).check fields]
  | .allGroup calls => [Ending.all.verdict (answersTo fields calls)]
  | .anyGroup calls => [Ending.any.verdict (answersTo fields calls)]

def answersTo (fields : Fields) : List Call → List (Outcome Bool)
  | [] => []
  | call :: rest => call.answers fields ++ answersTo fields rest

end

mutual

/-- No condition of a step needs a text that is missing. -/
def Call.isLegible (fields : Fields) : Call → Bool
  | .predicate field op value => (Predicate.mk field op value).isLegible fields
  | .range field low high =>
      (Predicate.mk field .gte low).isLegible fields &&
        (Predicate.mk field .lte high).isLegible fields
  | .allGroup calls | .anyGroup calls => callsLegible fields calls

def callsLegible (fields : Fields) : List Call → Bool
  | [] => true
  | call :: rest => call.isLegible fields && callsLegible fields rest

end

theorem tells_check (p : Predicate) (fields : Fields) :
    Ending.Tells (p.check fields) (p.holds fields) := by
  unfold Predicate.check
  cases p.isLegible fields with
  | true => exact .inl rfl
  | false => exact .inr rfl

mutual

theorem Call.answers_tell (fields : Fields) (call : Call) :
    List.Forall₂ Ending.Tells (call.answers fields) (call.truths fields) := by
  cases call with
  | predicate field op value =>
      rw [Call.answers, Call.truths]
      exact .cons (tells_check _ fields) .nil
  | range field low high =>
      rw [Call.answers, Call.truths]
      exact .cons (tells_check _ fields) (.cons (tells_check _ fields) .nil)
  | allGroup calls =>
      rw [Call.answers, Call.truths]
      exact .cons (Ending.verdict_tells .all (answersTo_tell fields calls)) .nil
  | anyGroup calls =>
      rw [Call.answers, Call.truths]
      exact .cons (Ending.verdict_tells .any (answersTo_tell fields calls)) .nil

theorem answersTo_tell (fields : Fields) (calls : List Call) :
    List.Forall₂ Ending.Tells (answersTo fields calls) (truthsOf fields calls) := by
  cases calls with
  | nil =>
      rw [answersTo, truthsOf]
      exact .nil
  | cons call rest =>
      rw [answersTo, truthsOf]
      exact List.rel_append (call.answers_tell fields) (answersTo_tell fields rest)

end

mutual

theorem Call.answers_of_isLegible {fields : Fields} {call : Call}
    (h : call.isLegible fields = true) : call.answers fields = (call.truths fields).map .ok := by
  cases call with
  | predicate field op value =>
      rw [Call.isLegible] at h
      rw [Call.answers, Call.truths, Predicate.check, if_pos h]
      rfl
  | range field low high =>
      rw [Call.isLegible, Bool.and_eq_true] at h
      rw [Call.answers, Call.truths, Predicate.check, if_pos h.1, Predicate.check, if_pos h.2]
      rfl
  | allGroup calls =>
      rw [Call.isLegible] at h
      rw [Call.answers, Call.truths, answersTo_of_callsLegible h, Ending.verdict_map_ok]
      rfl
  | anyGroup calls =>
      rw [Call.isLegible] at h
      rw [Call.answers, Call.truths, answersTo_of_callsLegible h, Ending.verdict_map_ok]
      rfl

theorem answersTo_of_callsLegible {fields : Fields} {calls : List Call}
    (h : callsLegible fields calls = true) :
    answersTo fields calls = (truthsOf fields calls).map .ok := by
  cases calls with
  | nil =>
      rw [answersTo, truthsOf]
      rfl
  | cons call rest =>
      rw [callsLegible, Bool.and_eq_true] at h
      rw [answersTo, truthsOf, List.map_append, Call.answers_of_isLegible h.1,
        answersTo_of_callsLegible h.2]

end

/-- The verdict on the answers is what is decided by the truths, unless a text is missing for it. -/
theorem verdict_cases (ending : Ending) (fields : Fields) (calls : List Call) :
    ending.verdict (answersTo fields calls) = .ok (ending.decides (truthsOf fields calls)) ∨
      (ending.verdict (answersTo fields calls) = .error Value.tooLong ∧
        callsLegible fields calls = false) := by
  cases h : callsLegible fields calls with
  | true => exact .inl (by rw [answersTo_of_callsLegible h, Ending.verdict_map_ok])
  | false => exact (Ending.verdict_tells ending (answersTo_tell fields calls)).imp_right (⟨·, rfl⟩)

/-- Alternatives are without an answer only if one is illegible and none before it is true. -/
theorem exists_of_any_error {fields : Fields} {calls : List Call} {fault : Fault}
    (h : Ending.any.verdict (answersTo fields calls) = .error fault) :
    ∃ before call after, calls = before ++ call :: after ∧ call.isLegible fields = false ∧
      (truthsOf fields before).any id = false := by
  induction calls with
  | nil => cases h
  | cons call rest ih =>
      cases hlegible : call.isLegible fields with
      | false => exact ⟨[], call, rest, rfl, hlegible, rfl⟩
      | true =>
          rw [answersTo, Call.answers_of_isLegible hlegible, Ending.verdict,
            Ending.firstOther_map_ok_append] at h
          cases hany : (call.truths fields).any id with
          | true =>
              rw [hany, if_pos rfl] at h
              cases h
          | false =>
              rw [hany, if_neg Bool.false_ne_true] at h
              obtain ⟨before, next, after, rfl, hnext, hnone⟩ := ih h
              refine ⟨call :: before, next, after, rfl, hnext, ?_⟩
              rw [truthsOf, List.any_append, hany, hnone]
              rfl

mutual

/-- Somewhere in a step stands a group without steps. -/
def Call.hasEmptyGroup : Call → Bool
  | .predicate _ _ _ | .range _ _ _ => false
  | .allGroup calls | .anyGroup calls => calls.isEmpty || haveEmptyGroup calls

def haveEmptyGroup : List Call → Bool
  | [] => false
  | call :: rest => call.hasEmptyGroup || haveEmptyGroup rest

end

theorem answersTo_append (fields : Fields) (calls more : List Call) :
    answersTo fields (calls ++ more) = answersTo fields calls ++ answersTo fields more := by
  induction calls with
  | nil => rfl
  | cons call rest ih => rw [List.cons_append, answersTo, answersTo, ih, List.append_assoc]

theorem any_truthsOf {fields : Fields} {calls : List Call} :
    (truthsOf fields calls).any id = true ↔
      ∃ call ∈ calls, (call.truths fields).any id = true := by
  induction calls with
  | nil => simp [truthsOf]
  | cons call rest ih =>
      rw [truthsOf, List.any_append, Bool.or_eq_true, ih, List.exists_mem_cons_iff]

theorem haveEmptyGroup_append (calls more : List Call) :
    haveEmptyGroup (calls ++ more) = (haveEmptyGroup calls || haveEmptyGroup more) := by
  induction calls with
  | nil => rfl
  | cons call rest ih => rw [List.cons_append, haveEmptyGroup, haveEmptyGroup, ih, Bool.or_assoc]

/-- The steps add these filters to any builder, and the filters have the answers of the steps. -/
structure Adds (calls : List Call) (filters : List Filter) : Prop where
  nil_iff : filters = [] ↔ calls = []
  applied : ∀ b : Builder, b.applyAll calls = .ok ⟨b.nodes ++ filters⟩
  answered : ∀ fields, filters.map (·.evaluate fields) = answersTo fields calls

/-- The steps fail on any builder, at an end of building without filters. -/
def Fail (calls : List Call) : Prop :=
  ∃ ending : Ending, ∀ b : Builder, b.applyAll calls = .error (Builder.emptyFault ending.word)

namespace Adds

variable {calls more : List Call} {filters others : List Filter}

theorem nil : Adds [] [] :=
  ⟨iff_of_true rfl rfl, fun b => by rw [Builder.applyAll, List.append_nil], fun _ => rfl⟩

theorem append (h : Adds calls filters) (hmore : Adds more others) :
    Adds (calls ++ more) (filters ++ others) where
  nil_iff := by
    rw [List.append_eq_nil_iff, List.append_eq_nil_iff, h.nil_iff, hmore.nil_iff]
  applied b := by
    rw [Builder.applyAll_append, h.applied, Outcome.bind_ok, hmore.applied, List.append_assoc]
  answered fields := by
    rw [List.map_append, answersTo_append, h.answered, hmore.answered]

theorem exists_finish (h : Adds calls filters) (hne : calls ≠ []) (ending : Ending) :
    ∃ filter, Builder.finish ⟨filters⟩ ending = .ok filter ∧
      ∀ fields, filter.evaluate fields = ending.verdict (answersTo fields calls) := by
  have hnodes : (Builder.mk filters).nodes ≠ [] := fun hnil => hne (h.nil_iff.1 hnil)
  obtain ⟨filter, hfilter, hmeaning⟩ := Builder.exists_finish hnodes ending
  refine ⟨filter, hfilter, fun fields => ?_⟩
  rw [hmeaning, evaluate_join, h.answered]

theorem finish_fails_iff (h : Adds calls filters) (ending : Ending) :
    (∃ fault, Builder.finish ⟨filters⟩ ending = .error fault ∧ fault.kind = .configuration) ↔
      calls = [] := by
  constructor
  · rintro ⟨fault, hfault, -⟩
    by_contra hne
    obtain ⟨filter, hfilter, -⟩ := h.exists_finish hne ending
    rw [hfilter] at hfault
    cases hfault
  · intro hnil
    exact ⟨_, Builder.finish_of_nil (h.nil_iff.2 hnil) ending, rfl⟩

end Adds

/-- Steps either add filters, or they fail and have a group without steps in them. -/
def Settled (calls : List Call) : Prop :=
  (haveEmptyGroup calls = false ∧ ∃ filters, Adds calls filters) ∨
    (haveEmptyGroup calls = true ∧ Fail calls)

namespace Settled

variable {calls more : List Call}

theorem append (h : Settled calls) (hmore : Settled more) : Settled (calls ++ more) := by
  unfold Settled
  rw [haveEmptyGroup_append]
  rcases h with ⟨hnone, filters, hadds⟩ | ⟨hsome, ending, hfails⟩
  · rw [hnone, Bool.false_or]
    rcases hmore with ⟨hnone, others, hothers⟩ | ⟨hsome, ending, hfails⟩
    · exact .inl ⟨hnone, _, hadds.append hothers⟩
    · refine .inr ⟨hsome, ending, fun b => ?_⟩
      rw [Builder.applyAll_append, hadds.applied, Outcome.bind_ok, hfails]
  · refine .inr ⟨by rw [hsome, Bool.true_or], ending, fun b => ?_⟩
    rw [Builder.applyAll_append, hfails, Outcome.bind_error]

theorem group {call : Call} (ending : Ending) (h : Settled calls)
    (happly : ∀ b : Builder, b.apply call =
      (Builder.empty.applyAll calls).bind fun group => (group.finish ending).map b.append)
    (hanswers : ∀ fields, call.answers fields = [ending.verdict (answersTo fields calls)])
    (hempty : call.hasEmptyGroup = (calls.isEmpty || haveEmptyGroup calls)) :
    Settled [call] := by
  have hhave : haveEmptyGroup [call] = (calls.isEmpty || haveEmptyGroup calls) := by
    rw [haveEmptyGroup, haveEmptyGroup, Bool.or_false, hempty]
  rcases h with ⟨hnone, filters, hadds⟩ | ⟨hsome, other, hfails⟩
  · have hmade : Builder.empty.applyAll calls = .ok ⟨filters⟩ := hadds.applied .empty
    by_cases hne : calls = []
    · refine .inr ⟨by rw [hhave, hne]; rfl, ending, fun b => ?_⟩
      rw [Builder.applyAll_single, happly, hmade, Outcome.bind_ok,
        Builder.finish_of_nil (hadds.nil_iff.2 hne)]
      rfl
    · obtain ⟨filter, hfilter, hmeaning⟩ := hadds.exists_finish hne ending
      refine .inl ⟨?_, [filter], ⟨iff_of_false (List.cons_ne_nil _ _) (List.cons_ne_nil _ _),
        fun b => ?_, fun fields => ?_⟩⟩
      · rw [hhave, hnone, Bool.or_false, List.isEmpty_eq_false_iff]
        exact hne
      · rw [Builder.applyAll_single, happly, hmade, Outcome.bind_ok, hfilter]
        rfl
      · rw [answersTo, answersTo, List.append_nil, hanswers, List.map_singleton, hmeaning]
  · refine .inr ⟨by rw [hhave, hsome, Bool.or_true], other, fun b => ?_⟩
    rw [Builder.applyAll_single, happly, hfails, Outcome.bind_error]

end Settled

mutual

theorem Call.settled (call : Call) : Settled [call] := by
  cases call with
  | predicate field op value =>
      refine .inl ⟨rfl, [.pred ⟨field, op, value⟩], ?_, fun b => ?_, fun fields => rfl⟩
      · exact iff_of_false (List.cons_ne_nil _ _) (List.cons_ne_nil _ _)
      · rfl
  | range field low high =>
      refine .inl ⟨rfl, [.pred ⟨field, .gte, low⟩, .pred ⟨field, .lte, high⟩], ?_, fun b => ?_,
        fun fields => rfl⟩
      · exact iff_of_false (List.cons_ne_nil _ _) (List.cons_ne_nil _ _)
      · rw [Builder.applyAll_single]
        simp [Builder.apply, Builder.range, Builder.predicate, Builder.append]
  | allGroup calls =>
      exact (settled calls).group .all (fun b => b.apply_allGroup calls) (fun _ => rfl) rfl
  | anyGroup calls =>
      exact (settled calls).group .any (fun b => b.apply_anyGroup calls) (fun _ => rfl) rfl

theorem settled (calls : List Call) : Settled calls := by
  cases calls with
  | nil => exact .inl ⟨rfl, [], .nil⟩
  | cons call rest => exact call.settled.append (settled rest)

end

theorem exists_adds_of_ok {calls : List Call} {b made : Builder}
    (h : b.applyAll calls = .ok made) :
    haveEmptyGroup calls = false ∧ ∃ filters, Adds calls filters := by
  rcases settled calls with hadds | ⟨-, ending, hfails⟩
  · exact hadds
  · rw [hfails] at h
    cases h

theorem fail_of_error {calls : List Call} {b : Builder} {fault : Fault}
    (h : b.applyAll calls = .error fault) :
    haveEmptyGroup calls = true ∧ ∃ ending : Ending, fault = Builder.emptyFault ending.word := by
  rcases settled calls with ⟨-, filters, hadds⟩ | ⟨hempty, ending, hfails⟩
  · rw [hadds.applied] at h
    cases h
  · rw [hfails] at h
    exact ⟨hempty, ending, (Except.error.inj h).symm⟩

theorem exists_joined {calls : List Call} (hne : calls ≠ []) (hempty : haveEmptyGroup calls = false)
    (ending : Ending) :
    ∃ made filter, Builder.empty.applyAll calls = .ok made ∧ made.finish ending = .ok filter ∧
      ∀ fields, filter.evaluate fields = ending.verdict (answersTo fields calls) := by
  rcases settled calls with ⟨-, filters, hadds⟩ | ⟨hsome, -⟩
  · obtain ⟨filter, hfilter, hmeaning⟩ := hadds.exists_finish hne ending
    exact ⟨⟨filters⟩, filter, hadds.applied .empty, hfilter, hmeaning⟩
  · rw [hempty] at hsome
    cases hsome

section Leaves

def Call.isLeaf : Call → Bool
  | .predicate _ _ _ | .range _ _ _ => true
  | .allGroup _ | .anyGroup _ => false

/-- Some condition accepts the fields, or some range does for what its two bounds say. -/
def SomeAccepts (bounds : Prop → Prop → Prop) (calls : List Call) (fields : Fields) : Prop :=
  (∃ field op value, Call.predicate field op value ∈ calls ∧
    (Predicate.mk field op value).holds fields = true) ∨
  ∃ field low high, Call.range field low high ∈ calls ∧
    bounds ((Predicate.mk field .gte low).holds fields = true)
      ((Predicate.mk field .lte high).holds fields = true)

variable {calls : List Call}

theorem haveEmptyGroup_of_isLeaf (h : ∀ call ∈ calls, call.isLeaf = true) :
    haveEmptyGroup calls = false := by
  induction calls with
  | nil => rfl
  | cons call rest ih =>
      obtain ⟨hcall, hrest⟩ := List.forall_mem_cons.1 h
      rw [haveEmptyGroup, ih hrest, Bool.or_false]
      cases call with
      | predicate | range => rfl
      | allGroup | anyGroup => cases hcall

theorem any_truthsOf_of_isLeaf (h : ∀ call ∈ calls, call.isLeaf = true) (fields : Fields) :
    (truthsOf fields calls).any id = true ↔ SomeAccepts Or calls fields := by
  rw [any_truthsOf]
  constructor
  · rintro ⟨call, hcall, hanswer⟩
    cases call with
    | predicate field op value =>
        exact .inl ⟨field, op, value, hcall, by simpa [Call.truths] using hanswer⟩
    | range field low high =>
        exact .inr ⟨field, low, high, hcall, by simpa [Call.truths] using hanswer⟩
    | allGroup | anyGroup => cases h _ hcall
  · rintro (⟨field, op, value, hcall, hholds⟩ | ⟨field, low, high, hcall, hbound⟩)
    · exact ⟨_, hcall, by simpa [Call.truths] using hholds⟩
    · exact ⟨_, hcall, by simpa [Call.truths] using hbound⟩

/-- Joined by "or", alone or as a group, conditions are alternatives, and so is each bound of a
range. There is no answer only if a text is missing for one of them and none before it accepts. -/
theorem any_accepts_by_bounds (hne : calls ≠ []) (hleaf : ∀ call ∈ calls, call.isLeaf = true) :
    ∃ made filter, Builder.empty.applyAll calls = .ok made ∧ made.joinAny = .ok filter ∧
      (∀ b : Builder, b.apply (.anyGroup calls) = .ok (b.append filter)) ∧
      ∀ fields, (∃ accepted, filter.evaluate fields = .ok accepted ∧
          (accepted = true ↔ SomeAccepts Or calls fields)) ∨
        (filter.evaluate fields = .error Value.tooLong ∧
          ∃ before call after, calls = before ++ call :: after ∧
            call.isLegible fields = false ∧ ¬ SomeAccepts Or before fields) := by
  obtain ⟨made, filter, hmade, hfilter, hmeaning⟩ :=
    exists_joined hne (haveEmptyGroup_of_isLeaf hleaf) .any
  refine ⟨made, filter, hmade, hfilter, fun b => ?_, fun fields => ?_⟩
  · rw [Builder.apply_anyGroup, hmade, Outcome.bind_ok, hfilter]
    rfl
  · rw [hmeaning]
    rcases verdict_cases .any fields calls with hverdict | ⟨hverdict, -⟩
    · exact .inl ⟨_, hverdict, any_truthsOf_of_isLeaf hleaf fields⟩
    · obtain ⟨before, call, after, rfl, hlegible, hnone⟩ := exists_of_any_error hverdict
      refine .inr ⟨hverdict, before, call, after, rfl, hlegible, fun hsome => ?_⟩
      have hbefore : ∀ c ∈ before, c.isLeaf = true := fun c hc =>
        hleaf c (List.mem_append_left _ hc)
      exact Bool.false_ne_true (hnone.symm.trans ((any_truthsOf_of_isLeaf hbefore fields).2 hsome))

/-- A number beyond a range passes its lower bound; without the number only the heading counts. -/
theorem any_accepts_beyond_range :
    let calls := [Call.range "chunkIndex" (.int 2) (.int 5),
      .predicate "heading" .eq (.text "Setup")]
    calls ≠ [] ∧ (∀ call ∈ calls, call.isLeaf = true) ∧
      ∃ made filter, Builder.empty.applyAll calls = .ok made ∧ made.joinAny = .ok filter ∧
        filter.evaluate [("chunkIndex", .int 9)] = .ok true ∧
        filter.evaluate [("heading", .text "Billing")] = .ok false := by
  intro calls
  have hne : calls ≠ [] := List.cons_ne_nil _ _
  have hleaf : ∀ call ∈ calls, call.isLeaf = true := by
    simp only [calls, List.forall_mem_cons]
    exact ⟨rfl, rfl, fun _ h => by cases h⟩
  obtain ⟨made, filter, hmade, hfilter, -, hmeaning⟩ := any_accepts_by_bounds hne hleaf
  have hlegible (fields : Fields) (h : calls.all (·.isLegible fields) = true) :
      ¬ ∃ before call after, calls = before ++ call :: after ∧
        call.isLegible fields = false ∧ ¬ SomeAccepts Or before fields := by
    rintro ⟨before, call, after, hcalls, hmissing, -⟩
    rw [hcalls, List.all_append, List.all_cons, hmissing, Bool.false_and, Bool.and_false] at h
    cases h
  refine ⟨hne, hleaf, made, filter, hmade, hfilter, ?_, ?_⟩
  · rcases hmeaning [("chunkIndex", .int 9)] with ⟨accepted, haccepted, hiff⟩ | ⟨-, hmissing⟩
    · rw [haccepted, hiff.2 (.inr ⟨_, _, _, List.mem_cons_self, .inl (by decide)⟩)]
    · exact absurd hmissing (hlegible _ (by decide))
  · have hnone : ¬ SomeAccepts Or calls [("heading", .text "Billing")] := by
      rintro (⟨field, op, value, hmem, hholds⟩ | ⟨field, low, high, hmem, hbound⟩)
      · rcases List.mem_cons.1 hmem with h | hmem
        · cases h
        · cases List.mem_singleton.1 hmem
          revert hholds
          decide
      · rcases List.mem_cons.1 hmem with h | hmem
        · cases h
          revert hbound
          decide
        · cases List.mem_singleton.1 hmem
    rcases hmeaning [("heading", .text "Billing")] with ⟨accepted, haccepted, hiff⟩ | ⟨-, hmissing⟩
    · rw [haccepted, Bool.eq_false_iff.2 fun h => hnone (hiff.1 h)]
    · exact absurd hmissing (hlegible _ (by decide))

/-- A range alone, joined by "or", accepts what lies outside it. -/
theorem range_joined_by_or_accepts_outside :
    ¬ ∀ calls : List Call, calls ≠ [] → (∀ call ∈ calls, call.isLeaf = true) → ∀ fields,
      ∃ made filter accepted, Builder.empty.applyAll calls = .ok made ∧
        made.joinAny = .ok filter ∧ filter.evaluate fields = .ok accepted ∧
        (accepted = true ↔ SomeAccepts And calls fields) := by
  intro hall
  obtain ⟨made, filter, accepted, hmade, hfilter, haccepted, hiff⟩ :=
    hall [.range "chunkIndex" (.int 2) (.int 5)] (List.cons_ne_nil _ _)
      (fun _ h => by rw [List.mem_singleton.1 h]; rfl) [("chunkIndex", .int 9)]
  cases hmade
  cases hfilter
  cases haccepted
  rcases hiff.1 (by decide) with ⟨field, op, value, hmem, -⟩ | ⟨field, low, high, hmem, -, hbound⟩
  · cases List.mem_singleton.1 hmem
  · cases List.mem_singleton.1 hmem
    revert hbound
    decide

end Leaves

end Retrieval.Filter
