import Mathlib.Data.List.Forall2
import Retrieval.Fault

/-!
# One step for each of many

A step that may fail is taken for one thing after the other, up to the first for which it fails. If
it fails for none, what comes of it is what comes of each.
-/

namespace Retrieval.Outcome

variable {α β : Type} {f : α → Outcome β} {xs : List α}

theorem mapM_of_ok {g : α → β} (h : ∀ x ∈ xs, f x = .ok (g x)) :
    (xs.mapM f : Outcome (List β)) = .ok (xs.map g) := by
  induction xs with
  | nil => rfl
  | cons x rest ih =>
      obtain ⟨hx, hrest⟩ := List.forall_mem_cons.1 h
      rw [List.mapM_cons, hx, ih hrest]
      rfl

theorem mapM_cases (f : α → Outcome β) (xs : List α) :
    (∃ ys : List β, (xs.mapM f : Outcome (List β)) = .ok ys ∧ xs.map f = ys.map .ok) ∨
      ∃ x ∈ xs, ∃ fault, f x = .error fault ∧ (xs.mapM f : Outcome (List β)) = .error fault := by
  induction xs with
  | nil => exact Or.inl ⟨[], rfl, rfl⟩
  | cons x rest ih =>
      rw [List.mapM_cons]
      cases hx : f x with
      | error fault => exact Or.inr ⟨x, List.mem_cons_self, fault, hx, rfl⟩
      | ok y =>
          rcases ih with ⟨ys, hys, hmap⟩ | ⟨z, hz, fault, hfault, herror⟩
          · refine Or.inl ⟨y :: ys, ?_, ?_⟩
            · rw [hys]
              rfl
            · rw [List.map_cons, hx, hmap]
              rfl
          · refine Or.inr ⟨z, List.mem_cons_of_mem _ hz, fault, hfault, ?_⟩
            rw [herror]
            rfl

theorem mapM_eq_ok_iff {ys : List β} : (xs.mapM f : Outcome (List β)) = .ok ys ↔
    List.Forall₂ (fun x y => f x = .ok y) xs ys := by
  have hpairs : xs.map f = ys.map .ok ↔ List.Forall₂ (fun x y => f x = .ok y) xs ys := by
    rw [← List.forall₂_eq_eq_eq, List.forall₂_map_left_iff, List.forall₂_map_right_iff]
  rw [← hpairs]
  constructor
  · intro h
    rcases mapM_cases f xs with ⟨zs, hzs, hmap⟩ | ⟨x, -, fault, -, herror⟩
    · rw [hmap, Except.ok.inj (hzs.symm.trans h)]
    · cases h.symm.trans herror
  · intro h
    rcases mapM_cases f xs with ⟨zs, hzs, hmap⟩ | ⟨x, hx, fault, hfault, -⟩
    · rw [hzs, List.map_injective_iff.2 (fun _ _ => Except.ok.inj) (hmap.symm.trans h)]
    · have hmem : f x ∈ ys.map .ok := h ▸ List.mem_map_of_mem hx
      rw [hfault] at hmem
      obtain ⟨y, -, hy⟩ := List.mem_map.1 hmem
      cases hy

theorem exists_ok_of_map_eq {ys : List β} (h : xs.map f = ys.map .ok) {x : α} (hx : x ∈ xs) :
    ∃ y, f x = .ok y := by
  have hmem : f x ∈ ys.map .ok := h ▸ List.mem_map_of_mem hx
  obtain ⟨y, -, hy⟩ := List.mem_map.1 hmem
  exact ⟨y, hy.symm⟩

end Retrieval.Outcome
