import Retrieval.Proofs.Filter.Pushdown
import Retrieval.Store.Remote

/-!
# A filter split in two

What a clause selects and what is left to check accept together just what the filter accepts. The
cut to a number of items may come before the check only if nothing is left to check; otherwise
everything selected has to be fetched first. The check fails only where the filter wants the text of
an illegible value, and that is never so if nothing is left to check.
-/

namespace Retrieval

namespace Item

def passes (filter : Option Filter) (i : Item) : Bool := filter.all (·.passes i.metadata)

def legibleFor (filter : Option Filter) (i : Item) : Bool :=
  filter.all (·.isLegible i.metadata)

end Item

namespace Split

/-- The two parts select together what the filter accepts. -/
structure Renders (split : Split) (filter : Option Filter) : Prop where
  whole : ∀ fields, (split.clause.all (·.selects fields) && split.residual.all (·.accepts fields)) =
    filter.all (·.accepts fields)
  wellFormed : ∀ f, filter = some f → f.isWellFormed = true
  residual : (split.residual = none ∧ ∀ fields, filter.all (·.isLegible fields) = true) ∨
    split.residual = filter

theorem exists_renders (filter : Option Filter)
    (hf : ∀ f, filter = some f → f.isWellFormed = true) :
    ∃ split, Split.ofFilter filter = .ok split ∧ split.Renders filter := by
  cases filter with
  | none => exact ⟨⟨none, none⟩, rfl, fun _ => rfl, nofun, .inr rfl⟩
  | some f =>
      obtain ⟨t, hpush, ht⟩ := Filter.standsFor_pushDown (hf f rfl) false
      have hselects (fields : Fields) : t.clause.all (·.selects fields) = t.selects fields := by
        unfold Pushdown.selects
        cases t.clause <;> rfl
      have hsigned (fields : Fields) : f.signed false fields = f.accepts fields := Bool.bne_false _
      have hsplit : ofFilter (some f) = .ok ⟨t.clause, if t.exact then none else some f⟩ := by
        rw [ofFilter, hpush]
        rfl
      refine ⟨_, hsplit, ?_, hf, ?_⟩
      · intro fields
        have hsound := ht.sound fields
        have hcomplete := fun he => ht.complete he fields
        rw [hsigned] at hsound hcomplete
        dsimp only
        rw [hselects, Option.all_some]
        cases he : t.exact with
        | true =>
            rw [if_pos rfl, Option.all_none, Bool.and_true, Bool.eq_iff_iff]
            exact ⟨hcomplete he, hsound⟩
        | false =>
            rw [if_neg Bool.false_ne_true, Option.all_some]
            cases ha : f.accepts fields with
            | true => rw [hsound ha, Bool.and_true]
            | false => exact Bool.and_false _
      · cases he : t.exact with
        | true => exact .inl ⟨rfl, Filter.isLegible_of_exact hpush he⟩
        | false => exact .inr rfl

namespace Renders

variable {split : Split} {filter : Option Filter}

theorem passes_of_legible (h : split.Renders filter) {i : Item}
    (hi : filter.all (·.isLegible i.metadata) = true) :
    i.passes filter = filter.all (·.accepts i.metadata) := by
  cases filter with
  | none => rfl
  | some f => exact Filter.passes_of_isLegible (h.wellFormed f rfl) hi

theorem admits_cases (h : split.Renders filter) {r : Row} {i : Item}
    (hr : r.metadata = some (.map i.metadata)) :
    (split.admits r = .ok (split.residual.all (·.accepts i.metadata)) ∧
        i.passes filter = filter.all (·.accepts i.metadata)) ∨
      (split.admits r = .error Value.tooLong ∧ i.legibleFor filter = false) := by
  unfold Split.admits
  rcases h.residual with ⟨hnone, hlegible⟩ | hsame
  · rw [hnone]
    exact .inl ⟨rfl, h.passes_of_legible (hlegible i.metadata)⟩
  · rw [hsame]
    cases filter with
    | none => exact .inl ⟨rfl, rfl⟩
    | some f =>
        rw [hr]
        rcases Filter.evaluate_cases (h.wellFormed f rfl) i.metadata with heval | hfault
        · exact .inl ⟨heval, Filter.passes_of_evaluate heval⟩
        · exact .inr hfault

/-- What is not accepted does not pass, be it told or not. -/
theorem not_passes (h : split.Renders filter) {i : Item}
    (hi : filter.all (·.accepts i.metadata) = false) : i.passes filter = false := by
  cases filter with
  | none => cases hi
  | some f =>
      refine Bool.eq_false_iff.2 fun hpasses => ?_
      cases hi.symm.trans (Filter.accepts_of_passes (h.wellFormed f rfl) hpasses)

theorem filter_filter (h : split.Renders filter) (items : List Item)
    (htold : ∀ i ∈ items, split.clause.all (·.selects i.metadata) = true →
      i.passes filter = filter.all (·.accepts i.metadata)) :
    ((items.filter fun i => split.clause.all (·.selects i.metadata)).filter fun i =>
      split.residual.all (·.accepts i.metadata)) = items.filter (·.passes filter) := by
  rw [List.filter_filter]
  refine List.filter_congr fun i hi => ?_
  rw [Bool.and_comm, h.whole]
  by_cases hselected : split.clause.all (·.selects i.metadata) = true
  · exact (htold i hi hselected).symm
  · have hnot := h.whole i.metadata
    rw [Bool.eq_false_iff.2 hselected, Bool.false_and] at hnot
    rw [← hnot, h.not_passes hnot.symm]

/-- Fetching a limited number of items loses none of the first `k` that pass if the limit is beyond
all of them, or if nothing is left to check and it is not less than `k`. -/
theorem cut (h : split.Renders filter) (items : List Item) {k limit : Nat}
    (hlimit : items.length ≤ limit ∨ split.residual = none ∧ k ≤ limit)
    (htold : ∀ i ∈ (items.filter fun i => split.clause.all (·.selects i.metadata)).take limit,
      i.passes filter = filter.all (·.accepts i.metadata)) :
    ((((items.filter fun i => split.clause.all (·.selects i.metadata)).take limit).filter fun i =>
      split.residual.all (·.accepts i.metadata)).take k) =
        (items.filter (·.passes filter)).take k := by
  rcases hlimit with hall | ⟨hnone, hk⟩
  · rw [List.take_of_length_le (Nat.le_trans (List.length_filter_le _ _) hall)] at htold ⊢
    rw [h.filter_filter items fun i hi hselected => htold i (List.mem_filter.2 ⟨hi, hselected⟩)]
  · -- Every item can be told, be it fetched or not.
    have hpasses : ∀ i : Item, i.passes filter = filter.all (·.accepts i.metadata) := by
      intro i
      rcases h.residual with ⟨-, hlegible⟩ | hsame
      · exact h.passes_of_legible (hlegible i.metadata)
      · rw [← hsame, hnone]
        rfl
    have hkept (chosen : List Item) :
        (chosen.filter fun i => split.residual.all (·.accepts i.metadata)) = chosen := by
      rw [hnone]
      exact List.filter_eq_self.2 fun _ _ => rfl
    rw [← h.filter_filter items fun i _ _ => hpasses i, hkept, hkept, List.take_take,
      Nat.min_eq_left hk]

end Renders

end Split

end Retrieval
