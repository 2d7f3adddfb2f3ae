import Retrieval.Schedule.Work

/-!
# Work that is noted

Beside its world, noted work keeps a record of the items it was given and of how they came out, in
the order in which this happened. Nothing reads the notes, so noted work does what the work does.
-/

namespace Retrieval

structure Notes (ι α : Type) where
  /-- The items that were begun. -/
  begun : List ι
  /-- How items came out, in the order of completion. -/
  ended : List (Outcome α)

namespace Notes

variable {ι ρ α : Type}

def none : Notes ι α := ⟨[], []⟩

def begin (n : Notes ι α) (item : ι) : Notes ι α := { n with begun := n.begun ++ [item] }

def finish (n : Notes ι α) (outcome : Outcome α) : Notes ι α :=
  { n with ended := n.ended ++ [outcome] }

def follow (n : Notes ι α) : Progress ρ α → Notes ι α
  | .finished outcome => n.finish outcome
  | _ => n

end Notes

def Work.noted {σ ι ρ α : Type} (w : Work σ ι ρ α) : Work (σ × Notes ι α) ι ρ α where
  begin item s :=
    let (progress, world) := w.begin item s.1
    (progress, world, (s.2.begin item).follow progress)
  resume rest s :=
    let (outcome, world) := w.resume rest s.1
    (outcome, world, s.2.finish outcome)
  elapse instant s := (w.elapse instant s.1, s.2)

namespace Work

variable {σ ι ρ α : Type} (w : Work σ ι ρ α)

theorem noted_begin (item : ι) (s : σ × Notes ι α) : w.noted.begin item s =
    ((w.begin item s.1).1, (w.begin item s.1).2,
      (s.2.begin item).follow (w.begin item s.1).1) := rfl

theorem noted_resume (rest : ρ) (s : σ × Notes ι α) : w.noted.resume rest s =
    ((w.resume rest s.1).1, (w.resume rest s.1).2, s.2.finish (w.resume rest s.1).1) := rfl

/-- What is left to do of the item after a wait. -/
def Leaves (item : ι) (rest : ρ) : Prop :=
  ∃ world, (w.begin item world).1 = .yielded rest ∨
    ∃ seconds, (w.begin item world).1 = .sleeping seconds rest

/-- How the item can come out, in whatever worlds it is begun and resumed. -/
def MayGive (item : ι) (outcome : Outcome α) : Prop :=
  (∃ world, (w.begin item world).1 = .finished outcome) ∨
    ∃ rest world, w.Leaves item rest ∧ (w.resume rest world).1 = outcome

end Work

def unnoted {σ ι α β : Type} (state : β × (σ × Notes ι α)) : β × σ := (state.1, state.2.1)

end Retrieval
