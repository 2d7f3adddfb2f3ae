import Retrieval.Fault
import Retrieval.Schema.Issue

/-!
# Checked values

The result of checking a value is either good or the list of all its issues, in order. Checks
side by side are both run, and their issues are put together.
-/

namespace Retrieval.Schema

inductive Checked (α : Type)
  | good (value : α)
  | bad (issues : List Issue)
deriving Repr

namespace Checked

variable {α β : Type}

def map (f : α → β) : Checked α → Checked β
  | good a => good (f a)
  | bad issues => bad issues

def ap (f : Checked (α → β)) (x : Checked α) : Checked β :=
  match f, x with
  | good f, good a => good (f a)
  | good _, bad issues => bad issues
  | bad issues, good _ => bad issues
  | bad issues, bad more => bad (issues ++ more)

/-- A later check that is made only if the earlier ones succeed. -/
def andThen (x : Checked α) (f : α → Checked β) : Checked β :=
  match x with
  | good a => f a
  | bad issues => bad issues

def flaw (f : Flaw) : Checked α := bad [⟨[], f⟩]

def under (step : Step) : Checked α → Checked α
  | good a => good a
  | bad issues => bad (issues.map fun issue => { issue with path := step :: issue.path })

def list (check : α → Checked β) : (position : Nat) → List α → Checked (List β)
  | _, [] => good []
  | position, a :: rest =>
      ap (((check a).under (.position position)).map (· :: ·)) (list check (position + 1) rest)

def toOutcome (record : String) : Checked α → Outcome α
  | good a => .ok a
  | bad issues => .error (.invalid ⟨record, issues⟩)

instance : Functor Checked where
  map f x := x.map f

instance : Seq Checked where
  seq f x := f.ap (x ())

@[simp] theorem map_good (f : α → β) (a : α) : (good a).map f = good (f a) := rfl

@[simp] theorem ap_good (f : α → β) (a : α) : (good f).ap (good a) = good (f a) := rfl

theorem ap_eq_good {f : Checked (α → β)} {x : Checked α} {b : β} (h : f.ap x = good b) :
    ∃ g a, f = good g ∧ x = good a ∧ b = g a := by
  cases f <;> cases x <;> simp [ap] at h
  exact ⟨_, _, rfl, rfl, h.symm⟩

theorem map_eq_good {f : α → β} {x : Checked α} {b : β} (h : x.map f = good b) :
    ∃ a, x = good a ∧ b = f a := by
  cases x <;> simp [map] at h
  exact ⟨_, rfl, h.symm⟩

end Checked

end Retrieval.Schema
