import Retrieval.Effect.Action

/-!
# Actions that keep a part of the world

An action keeps what is read off the world if that is the same before and after, whatever the
outcome. What is made of such actions keeps it as well.
-/

namespace Retrieval.Action

variable {ω α β γ : Type} {part : ω → γ}

def Keeps (part : ω → γ) (a : Action ω α) : Prop := ∀ w, part (a w).2 = part w

theorem keeps_pure (x : α) : (pure x : Action ω α).Keeps part := fun _ => rfl

theorem keeps_throw (f : Fault) : (throw f : Action ω α).Keeps part := fun _ => rfl

theorem keeps_lift (o : Outcome α) : (liftM o : Action ω α).Keeps part := fun _ => rfl

theorem keeps_read (f : ω → α) : (read f).Keeps part := fun _ => rfl

theorem keeps_change {f : ω → ω} (h : ∀ w, part (f w) = part w) : (change f).Keeps part := h

theorem Keeps.bind {a : Action ω α} {k : α → Action ω β} (ha : a.Keeps part)
    (hk : ∀ x, (k x).Keeps part) : (a >>= k).Keeps part := by
  intro w
  have h := ha w
  rw [bind_apply]
  rcases hw : a w with ⟨_ | x, w'⟩ <;> rw [hw] at h
  · exact h
  · exact (hk x w').trans h

theorem keeps_mapM {k : α → Action ω β} (hk : ∀ x, (k x).Keeps part) (xs : List α) :
    (xs.mapM k).Keeps part := by
  induction xs with
  | nil => exact keeps_pure []
  | cons x rest ih =>
      rw [List.mapM_cons]
      exact (hk x).bind fun y => ih.bind fun ys => keeps_pure _

end Retrieval.Action
