import Mathlib.Data.List.Forall2
import Retrieval.Proofs.Filter.Building

/-!
# Programs that build filters

A program makes one builder after the other, each from one made before, which stays as it is and may
be used again, as a start or as a group. So a builder means what the steps say that lead to it,
whatever else was made of the builders on the way: this is its history.
-/

namespace Retrieval.Filter

/-- A line of a program makes a builder from one made before. It takes a step, or it adds a builder
made before as a group. -/
inductive Line
  | step (source : Nat) (call : Call)
  | allGroup (source group : Nat)
  | anyGroup (source group : Nat)

namespace Line

/-- The builder that a line makes. Builders are numbered in the order in which they are made; a
number without a builder stands for an empty one. -/
def make (made : List Builder) : Line → Outcome Builder
  | .step source call => (made.getD source .empty).apply call
  | .allGroup source group =>
      (made.getD group .empty).joinAll.map (made.getD source .empty).append
  | .anyGroup source group =>
      (made.getD group .empty).joinAny.map (made.getD source .empty).append

/-- The steps that lead to the builder that a line makes, groups being written out. -/
def history (told : List (List Call)) : Line → List Call
  | .step source call => told.getD source [] ++ [call]
  | .allGroup source group => told.getD source [] ++ [.allGroup (told.getD group [])]
  | .anyGroup source group => told.getD source [] ++ [.anyGroup (told.getD group [])]

end Line

def run (made : List Builder) : List Line → Outcome (List Builder)
  | [] => .ok made
  | line :: rest =>
      match line.make made with
      | .error f => .error f
      | .ok b => run (made ++ [b]) rest

def histories (told : List (List Call)) : List Line → List (List Call)
  | [] => told
  | line :: rest => histories (told ++ [line.history told]) rest

theorem mem_histories {told : List (List Call)} {calls : List Call} (h : calls ∈ told)
    (program : List Line) : calls ∈ histories told program := by
  induction program generalizing told with
  | nil => exact h
  | cons line rest ih => exact ih (List.mem_append_left _ h)

/-- Every builder is what its history makes of an empty one. -/
def Follow (made : List Builder) (told : List (List Call)) : Prop :=
  List.Forall₂ (fun b calls => Builder.empty.applyAll calls = .ok b) made told

namespace Follow

variable {made : List Builder} {told : List (List Call)}

theorem getD (h : Follow made told) (i : Nat) :
    Builder.empty.applyAll (told.getD i []) = .ok (made.getD i .empty) := by
  induction h generalizing i with
  | nil => rfl
  | cons hfirst _ ih =>
      cases i with
      | zero => exact hfirst
      | succ i => exact ih i

theorem concat (h : Follow made told) {b : Builder} {calls : List Call}
    (hb : Builder.empty.applyAll calls = .ok b) : Follow (made ++ [b]) (told ++ [calls]) :=
  List.rel_append h (.cons hb .nil)

theorem make_eq (h : Follow made told) (line : Line) :
    line.make made = Builder.empty.applyAll (line.history told) := by
  cases line with
  | step source call =>
      rw [Line.history, Builder.applyAll_append, h.getD source]
      exact (Builder.applyAll_single _ call).symm
  | allGroup source group =>
      rw [Line.history, Builder.applyAll_append, h.getD source]
      show _ = Builder.applyAll (made.getD source .empty) _
      rw [Builder.applyAll_single, Builder.apply_allGroup, h.getD group]
      rfl
  | anyGroup source group =>
      rw [Line.history, Builder.applyAll_append, h.getD source]
      show _ = Builder.applyAll (made.getD source .empty) _
      rw [Builder.applyAll_single, Builder.apply_anyGroup, h.getD group]
      rfl

/-- A program makes the builders of its histories, or fails as one of its histories does. -/
theorem run_cases (h : Follow made told) (program : List Line) :
    (∃ all, run made program = .ok all ∧ Follow all (histories told program)) ∨
      ∃ calls ∈ histories told program, ∃ fault,
        Builder.empty.applyAll calls = .error fault ∧ run made program = .error fault := by
  induction program generalizing made told with
  | nil => exact .inl ⟨made, rfl, h⟩
  | cons line rest ih =>
      rw [run, histories, h.make_eq line]
      cases hline : Builder.empty.applyAll (line.history told) with
      | ok b => exact ih (h.concat hline)
      | error fault =>
          refine .inr ⟨line.history told, ?_, fault, hline, rfl⟩
          exact mem_histories (List.mem_append_right _ List.mem_cons_self) rest

theorem haveEmptyGroup_eq_false (h : Follow made told) :
    ∀ calls ∈ told, haveEmptyGroup calls = false := by
  intro calls hcalls
  induction h with
  | nil => cases hcalls
  | cons hfirst _ ih =>
      rcases List.mem_cons.1 hcalls with rfl | hcalls
      · exact (exists_adds_of_ok hfirst).1
      · exact ih hcalls

end Follow

end Retrieval.Filter
