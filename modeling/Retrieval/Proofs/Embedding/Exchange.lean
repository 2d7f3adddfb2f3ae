import Retrieval.Embedding.Remote
import Retrieval.Proofs.Effect.Traversing

/-!
# What is exchanged with an embedding service

Beside its world, a noted service keeps its exchanges: what it was sent and what it answered, in the
order of the calls. Nothing reads the notes, so a noted service answers as the service does. The
exchanges of a run of calls tell what comes of the run.
-/

namespace Retrieval

abbrev EmbeddingService (ω : Type) :=
  (model : String) → List String → Remote.Call ω (List EmbeddingItem)

/-- One call: what was sent and what came back. -/
structure Exchange where
  model : String
  inputs : List String
  answer : Except Remote.Failure (List EmbeddingItem)

namespace Exchange

/-- The items that came back; none if the call failed. -/
def items (e : Exchange) : List EmbeddingItem := e.answer.toOption.getD []

def isAnswered (e : Exchange) : Bool := e.answer.isOk

def outcome (label : String) (e : Exchange) : Outcome (List Embedding) :=
  match e.answer with
  | .ok items => .ok (EmbeddingModel.inOrder items)
  | .error failure => .error (failure.toFault label)

variable {e : Exchange}

theorem isAnswered_of_ok {items : List EmbeddingItem} (h : e.answer = .ok items) :
    e.isAnswered = true := by
  rw [isAnswered, h]
  rfl

theorem not_isAnswered_of_error {failure : Remote.Failure} (h : e.answer = .error failure) :
    ¬ e.isAnswered = true := by
  rw [isAnswered, h]
  exact nofun

theorem outcome_of_isAnswered (h : e.isAnswered = true) (label : String) :
    e.outcome label = .ok (EmbeddingModel.inOrder e.items) := by
  unfold outcome items
  cases ha : e.answer with
  | ok items => rfl
  | error failure => exact absurd h (not_isAnswered_of_error ha)

theorem outcome_of_error {failure : Remote.Failure} (h : e.answer = .error failure)
    (label : String) : e.outcome label = .error (failure.toFault label) := by
  rw [outcome, h]

theorem mapM_outcome_cases (label : String) (log : List Exchange) :
    ((∀ e ∈ log, e.isAnswered = true) ∧
      log.mapM (outcome label) = .ok (log.map fun e => EmbeddingModel.inOrder e.items)) ∨
    ∃ e ∈ log, ∃ failure, e.answer = .error failure ∧
      log.mapM (outcome label) = .error (failure.toFault label) := by
  rcases Outcome.mapM_cases (outcome label) log with ⟨ys, -, hmap⟩ | ⟨e, he, fault, hfault, hlog⟩
  · have hall : ∀ e ∈ log, e.isAnswered = true := by
      intro e he
      obtain ⟨y, hy⟩ := Outcome.exists_ok_of_map_eq hmap he
      cases ha : e.answer with
      | ok items => exact isAnswered_of_ok ha
      | error failure => cases (outcome_of_error ha label).symm.trans hy
    exact Or.inl ⟨hall, Outcome.mapM_of_ok fun e he => outcome_of_isAnswered (hall e he) label⟩
  · cases ha : e.answer with
    | ok items => cases (outcome_of_isAnswered (isAnswered_of_ok ha) label).symm.trans hfault
    | error failure =>
        obtain rfl := Except.error.inj ((outcome_of_error ha label).symm.trans hfault)
        exact Or.inr ⟨e, he, failure, ha, hlog⟩

end Exchange

def EmbeddingService.noted {ω : Type} (call : EmbeddingService ω) :
    EmbeddingService (ω × List Exchange) := fun model inputs s =>
  let (answer, world) := call model inputs s.1
  (answer, world, s.2 ++ [⟨model, inputs, answer⟩])

namespace EmbeddingModel

variable {ω : Type} (m : EmbeddingModel) (call : EmbeddingService ω)

def exchange (inputs : List String) (w : ω) : Exchange := ⟨m.name, inputs, (call m.name inputs w).1⟩

theorem embedSlice_eq (inputs : List String) (w : ω) :
    m.embedSlice call inputs w =
      ((m.exchange call inputs w).outcome m.label, (call m.name inputs w).2) := by
  unfold embedSlice exchange Exchange.outcome
  rcases call m.name inputs w with ⟨_ | _, w'⟩ <;> rfl

theorem embedSlice_noted (inputs : List String) (w : ω) (log : List Exchange) :
    m.embedSlice call.noted inputs (w, log) =
      ((m.exchange call inputs w).outcome m.label, (call m.name inputs w).2,
        log ++ [m.exchange call inputs w]) := by
  rw [embedSlice_eq]
  rfl

/-- The exchanges of a run of calls: one for each call, up to the first that fails. -/
structure Exchanged (parts : List (List String)) (log : List Exchange) : Prop where
  made : ∀ e ∈ log, ∃ w, e = m.exchange call e.inputs w
  sent : log.map (·.inputs) <+: parts
  all_sent : (∀ e ∈ log, e.isAnswered = true) → log.map (·.inputs) = parts

/-- A run of calls does the same whether it is noted or not, and its exchanges tell how it ends. -/
theorem exists_exchanged (parts : List (List String)) (w : ω) :
    ∃ w' log, m.Exchanged call parts log ∧
      parts.mapM (m.embedSlice call) w = (log.mapM (Exchange.outcome m.label), w') ∧
      ∀ before, parts.mapM (m.embedSlice call.noted) (w, before) =
        (log.mapM (Exchange.outcome m.label), w', before ++ log) := by
  induction parts generalizing w with
  | nil =>
      refine ⟨w, [], ⟨nofun, List.prefix_rfl, fun _ => rfl⟩, rfl, fun before => ?_⟩
      rw [List.append_nil]
      rfl
  | cons inputs later ih =>
      let e := m.exchange call inputs w
      cases ha : e.answer with
      | error failure =>
          -- The run ends here, with this exchange as its last.
          have houtcome := Exchange.outcome_of_error ha m.label
          have hlog : [e].mapM (Exchange.outcome m.label) = .error (failure.toFault m.label) := by
            rw [List.mapM_cons, houtcome]
            rfl
          refine ⟨(call m.name inputs w).2, [e], ⟨?_, ?_, fun hall => ?_⟩, ?_, fun before => ?_⟩
          · exact List.forall_mem_singleton.2 ⟨w, rfl⟩
          · exact List.prefix_append [inputs] later
          · exact absurd (List.forall_mem_singleton.1 hall) (Exchange.not_isAnswered_of_error ha)
          · rw [List.mapM_cons, hlog]
            exact Action.bind_error (by rw [embedSlice_eq, houtcome]) _
          · rw [List.mapM_cons, hlog]
            exact Action.bind_error (by rw [embedSlice_noted, houtcome]) _
      | ok items =>
          have houtcome := Exchange.outcome_of_isAnswered (Exchange.isAnswered_of_ok ha) m.label
          obtain ⟨w', log, hlog, hplain, hnoted⟩ := ih (call m.name inputs w).2
          refine ⟨w', e :: log, ⟨?_, ?_, fun hall => ?_⟩, ?_, fun before => ?_⟩
          · exact List.forall_mem_cons.2 ⟨⟨w, rfl⟩, hlog.made⟩
          · exact List.cons_prefix_cons.2 ⟨rfl, hlog.sent⟩
          · exact congrArg (inputs :: ·) (hlog.all_sent (List.forall_mem_cons.1 hall).2)
          · rw [List.mapM_cons, List.mapM_cons, houtcome]
            refine (Action.bind_ok (by rw [embedSlice_eq, houtcome]) _).trans ?_
            rw [Action.bind_apply, hplain]
            cases log.mapM (Exchange.outcome m.label) <;> rfl
          · rw [List.mapM_cons, List.mapM_cons, houtcome]
            refine (Action.bind_ok (by rw [embedSlice_noted, houtcome]) _).trans ?_
            rw [Action.bind_apply, hnoted, List.append_assoc, List.singleton_append]
            cases log.mapM (Exchange.outcome m.label) <;> rfl

end EmbeddingModel

end Retrieval
