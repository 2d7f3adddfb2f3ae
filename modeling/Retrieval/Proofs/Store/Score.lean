import Retrieval.Proofs.Number.Order
import Retrieval.Store.Cosine

/-!
# Scores

The score of a distance lies between zero and one, and what is farther away scores no higher. Many
distances share a score: all that are below zero or above one, and those that rounding brings
together.
-/

namespace Retrieval

open Number

theorem clampUnit_bounds (x : Float) : 0 ≤ clampUnit x ∧ clampUnit x ≤ 1 := by
  have hzero : (0 : Float) ≤ 0 := by decide
  have hone : (1 : Float) ≤ 1 := by decide
  have hunit : (0 : Float) ≤ 1 := by decide
  unfold clampUnit
  dsimp only
  split_ifs with hless hpos hpos
  · exact ⟨le_of_lt hpos, le_of_lt hless⟩
  · exact ⟨hzero, hunit⟩
  · exact ⟨hunit, hone⟩
  · exact ⟨hzero, hunit⟩

theorem grade_clampUnit {x : Float} (hx : IsNumber x) :
    IsNumber (clampUnit x) ∧ grade (clampUnit x) = max 0 (min (grade x) (grade 1)) := by
  have hone := grade_one_pos
  have hzero := grade_zero
  unfold clampUnit
  dsimp only
  split_ifs with hless hpos hpos
  · rw [lt_iff hx isNumber_one] at hless
    rw [lt_iff isNumber_zero hx, hzero] at hpos
    exact ⟨hx, by omega⟩
  · rw [lt_iff hx isNumber_one] at hless
    rw [lt_iff isNumber_zero hx, hzero] at hpos
    exact ⟨isNumber_zero, by omega⟩
  · rw [lt_iff hx isNumber_one] at hless
    exact ⟨isNumber_one, by omega⟩
  · exact absurd (by decide) hpos

theorem isNumber_clampUnit (x : Float) : IsNumber (clampUnit x) :=
  (isNumber_of_le (clampUnit_bounds x).2).1

/-- What is farther away scores no higher. -/
theorem clampUnit_one_sub_antitone {x y : Float} (h : x ≤ y) :
    clampUnit (1 - y) ≤ clampUnit (1 - x) := by
  obtain ⟨hx, hy⟩ := isNumber_of_le h
  obtain ⟨hnx, hgx⟩ := grade_clampUnit (isNumber_one_sub hx)
  obtain ⟨hny, hgy⟩ := grade_clampUnit (isNumber_one_sub hy)
  have hless := grade_one_sub_antitone hx hy ((le_iff hx hy).1 h)
  rw [le_iff hny hnx, hgx, hgy]
  omega

/-- Similarities are numbers, whatever the vectors hold. -/
theorem isNumber_cosineSimilarity (a b : Embedding) : IsNumber (cosineSimilarity a b) := by
  unfold cosineSimilarity
  dsimp only
  split_ifs
  · exact isNumber_zero
  · exact isNumber_zero
  · exact isNumber_clampUnit _

end Retrieval
