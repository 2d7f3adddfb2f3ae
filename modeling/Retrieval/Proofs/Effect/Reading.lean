import Retrieval.Effect.Action

/-!
# Actions that only read

An action is independent of the world if it always has the same outcome and changes nothing. It
answers alike in two worlds if its outcome is the same in both and it changes neither; actions made
of such actions answer alike as well.
-/

namespace Retrieval.Action

variable {ω α β : Type}

def Independent (a : Action ω α) : Prop := ∃ o, ∀ w, a w = (o, w)

theorem independent_pure (x : α) : (pure x : Action ω α).Independent := ⟨.ok x, fun _ => rfl⟩

theorem independent_throw (f : Fault) : (throw f : Action ω α).Independent :=
  ⟨.error f, fun _ => rfl⟩

theorem independent_lift (o : Outcome α) : (liftM o : Action ω α).Independent :=
  ⟨o, fun _ => rfl⟩

theorem independent_read (x : α) : (read fun _ : ω => x).Independent := ⟨.ok x, fun _ => rfl⟩

theorem Independent.bind {a : Action ω α} {k : α → Action ω β} (ha : a.Independent)
    (hk : ∀ x, (k x).Independent) : (a >>= k).Independent := by
  obtain ⟨o, ho⟩ := ha
  cases o with
  | error f => exact ⟨.error f, fun w => bind_error (ho w) k⟩
  | ok x =>
      obtain ⟨o', ho'⟩ := hk x
      exact ⟨o', fun w => (bind_ok (ho w) k).trans (ho' w)⟩

def Alike (a : Action ω α) (w w' : ω) : Prop := ∃ o, a w = (o, w) ∧ a w' = (o, w')

theorem Independent.alike {a : Action ω α} (h : a.Independent) (w w' : ω) : a.Alike w w' := by
  obtain ⟨o, ho⟩ := h
  exact ⟨o, ho w, ho w'⟩

theorem Alike.bind {a : Action ω α} {k : α → Action ω β} {w w' : ω} (ha : a.Alike w w')
    (hk : ∀ x, (k x).Alike w w') : (a >>= k).Alike w w' := by
  obtain ⟨o, ho, ho'⟩ := ha
  cases o with
  | error f => exact ⟨.error f, bind_error ho k, bind_error ho' k⟩
  | ok x =>
      obtain ⟨p, hp, hp'⟩ := hk x
      exact ⟨p, (bind_ok ho k).trans hp, (bind_ok ho' k).trans hp'⟩

theorem alike_bind_lift {o : Outcome α} {k : α → Action ω β} {w w' : ω}
    (hk : ∀ x, o = .ok x → (k x).Alike w w') : ((liftM o : Action ω α) >>= k).Alike w w' := by
  cases o with
  | error f => exact ⟨.error f, bind_error rfl k, bind_error rfl k⟩
  | ok x =>
      obtain ⟨p, hp, hp'⟩ := hk x rfl
      exact ⟨p, (bind_ok rfl k).trans hp, (bind_ok rfl k).trans hp'⟩

theorem Alike.fst_eq {a : Action ω α} {w w' : ω} (h : a.Alike w w') : (a w).1 = (a w').1 := by
  obtain ⟨o, ho, ho'⟩ := h
  rw [ho, ho']

end Retrieval.Action
