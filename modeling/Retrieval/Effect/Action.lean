import Retrieval.Fault

/-!
# Actions

An action reads and changes a world and may fail; a failure keeps the changes made before it.
-/

namespace Retrieval

abbrev Action (ω α : Type) := ExceptT Fault (StateM ω) α

namespace Action

variable {ω ν α β : Type}

instance : MonadLift Outcome (Action ω) := ⟨fun o => ExceptT.mk (pure o)⟩

def perform (a : Action ω α) (w : ω) : Outcome α × ω := a w

/-- The outcome of an action as a value: the action that never fails. -/
def attempt (a : Action ω α) : Action ω (Outcome α) :=
  fun w => let (o, w) := a w; (.ok o, w)

/-- Runs an action on one part of a larger world. -/
def within (part : ν → ω) (put : ω → ν → ν) (a : Action ω α) : Action ν α :=
  fun w => let (o, p) := a (part w); (o, put p w)

def read (f : ω → α) : Action ω α := fun w => (.ok (f w), w)

def change (f : ω → ω) : Action ω Unit := fun w => (.ok (), f w)

@[simp] theorem pure_apply (a : α) (w : ω) : (pure a : Action ω α) w = (.ok a, w) := rfl

@[simp] theorem throw_apply (f : Fault) (w : ω) : (throw f : Action ω α) w = (.error f, w) := rfl

@[simp] theorem lift_apply (o : Outcome α) (w : ω) : (liftM o : Action ω α) w = (o, w) := rfl

@[simp] theorem read_apply (f : ω → α) (w : ω) : read f w = (.ok (f w), w) := rfl

@[simp] theorem attempt_apply (a : Action ω α) (w : ω) : a.attempt w = (.ok (a w).1, (a w).2) :=
  rfl

theorem bind_apply (a : Action ω α) (k : α → Action ω β) (w : ω) :
    (a >>= k) w = match a w with
      | (.ok x, w') => k x w'
      | (.error f, w') => (.error f, w') := by
  show (ExceptT.bindCont k (a w).1) (a w).2 = _
  rcases a w with ⟨_ | _, w'⟩ <;> rfl

theorem bind_ok {a : Action ω α} {w w' : ω} {x : α} (h : a w = (.ok x, w'))
    (k : α → Action ω β) : (a >>= k) w = k x w' := by
  rw [bind_apply, h]

theorem bind_error {a : Action ω α} {w w' : ω} {f : Fault} (h : a w = (.error f, w'))
    (k : α → Action ω β) : (a >>= k) w = (.error f, w') := by
  rw [bind_apply, h]

theorem bind_eq_ok {a : Action ω α} {k : α → Action ω β} {w w'' : ω} {y : β} :
    (a >>= k) w = (.ok y, w'') ↔ ∃ x w', a w = (.ok x, w') ∧ k x w' = (.ok y, w'') := by
  rw [bind_apply]
  rcases a w with ⟨_ | x, w'⟩
  · constructor
    · rintro ⟨⟩
    · rintro ⟨_, _, ⟨⟩, _⟩
  · constructor
    · exact fun h => ⟨x, w', rfl, h⟩
    · rintro ⟨_, _, ⟨⟩, h⟩
      exact h

/-- Dropping the result of an action changes nothing about the world it leaves. -/
theorem snd_bind_pure (a : Action ω α) (b : α → β) (w : ω) :
    ((a >>= fun x => pure (b x)) w).2 = (a w).2 := by
  rw [bind_apply]
  rcases a w with ⟨_ | _, w'⟩ <;> rfl

theorem bind_pure_eq_error {a : Action ω α} {b : α → β} {w w' : ω} {f : Fault}
    (h : (a >>= fun x => pure (b x)) w = (.error f, w')) : a w = (.error f, w') := by
  rw [bind_apply] at h
  rcases hw : a w with ⟨_ | x, w''⟩ <;> rw [hw] at h
  · cases h
    rfl
  · cases h

end Action

end Retrieval
