import Retrieval.Proofs.Number.Rounding

/-!
# The order of doubles

Doubles that are numbers are ordered as what they are worth. Since rounding keeps the order, taking
from one turns it around, infinite doubles included.
-/

namespace Retrieval.Number

open Float.Model (UnpackedFloat Format)
open Float.Model.UnpackedFloat

/-- What a double is worth, in steps of the least positive one. -/
def grade (x : Float) : Int := worth x.toModel.unpack

def IsNumber (x : Float) : Prop := x.toModel.unpack ≠ .notANumber

theorem isNumber_zero : IsNumber 0 := nofun

theorem isNumber_one : IsNumber 1 := nofun

theorem grade_zero : grade 0 = 0 := rfl

theorem grade_one_pos : 0 < grade 1 := worth_pos (by decide)

theorem isCanonical (x : Float) : IsCanonical x.toModel.unpack :=
  isCanonical_unpack x.toModel.toBits.toBitVec

theorem lt_iff_compare {x y : Float} :
    x < y ↔ x.toModel.unpack.compare y.toModel.unpack = some .lt := by
  show Float.lt x y = true ↔ _
  unfold Float.lt
  rw [decide_eq_true_eq, ← beq_iff_eq]
  rfl

theorem le_iff_compare {x y : Float} :
    x ≤ y ↔ (x.toModel.unpack.compare y.toModel.unpack).any (·.isLE) = true := by
  show Float.le x y = true ↔ _
  unfold Float.le
  rw [decide_eq_true_eq]
  rfl

theorem le_of_lt {x y : Float} (h : x < y) : x ≤ y := by
  rw [lt_iff_compare] at h
  rw [le_iff_compare, h]
  rfl

theorem lt_iff {x y : Float} (hx : IsNumber x) (hy : IsNumber y) :
    x < y ↔ grade x < grade y := by
  rw [lt_iff_compare, compare_eq (isCanonical x) (isCanonical y) hx hy, Option.some.injEq,
    compare_lt_iff_lt]
  rfl

theorem le_iff {x y : Float} (hx : IsNumber x) (hy : IsNumber y) :
    x ≤ y ↔ grade x ≤ grade y := by
  rw [le_iff_compare, compare_eq (isCanonical x) (isCanonical y) hx hy, Option.any_some,
    Ordering.isLE_iff_ne_gt, compare_gt_iff_gt.not, not_lt]
  rfl

theorem isNumber_of_le {x y : Float} (h : x ≤ y) : IsNumber x ∧ IsNumber y := by
  rw [le_iff_compare] at h
  constructor
  · intro hx
    rw [hx] at h
    cases h
  · intro hy
    rw [hy] at h
    revert h
    cases x.toModel.unpack <;> simp [UnpackedFloat.compare]

theorem le_trans {x y z : Float} (hxy : x ≤ y) (hyz : y ≤ z) : x ≤ z := by
  obtain ⟨hx, hy⟩ := isNumber_of_le hxy
  obtain ⟨-, hz⟩ := isNumber_of_le hyz
  rw [le_iff hx hy] at hxy
  rw [le_iff hy hz] at hyz
  rw [le_iff hx hz]
  exact hxy.trans hyz

theorem le_total {x y : Float} (hx : IsNumber x) (hy : IsNumber y) : x ≤ y ∨ y ≤ x := by
  rw [le_iff hx hy, le_iff hy hx]
  exact Int.le_total _ _

theorem not_lt_of_le {x y : Float} (h : x ≤ y) : ¬ y < x := by
  obtain ⟨hx, hy⟩ := isNumber_of_le h
  rw [le_iff hx hy] at h
  rw [lt_iff hy hx]
  exact not_lt.2 h

theorem abs_grade_le (x : Float) : |grade x| ≤ limit := by
  by_cases h : ∃ s, x.toModel.unpack = .infinity s
  · obtain ⟨s, hs⟩ := h
    have hlimit : (0 : Int) ≤ limit := Int.natCast_nonneg _
    rw [grade, hs, worth]
    cases s with
    | negative => rw [Sign.apply, abs_neg, abs_of_nonneg hlimit]
    | positive => rw [Sign.apply, abs_of_nonneg hlimit]
  · exact (abs_worth_lt (isCanonical x) fun s hs => h ⟨s, hs⟩).le

theorem finite_or_infinite {x : Float} (h : IsNumber x) :
    x.toModel.unpack.isFinite = true ∧ |grade x| < limit ∨
      ∃ s, x.toModel.unpack = .infinity s := by
  by_cases hx : ∃ s, x.toModel.unpack = .infinity s
  · exact Or.inr hx
  · have hfinite : ∀ s, x.toModel.unpack ≠ .infinity s := fun s hs => hx ⟨s, hs⟩
    refine Or.inl ⟨?_, abs_worth_lt (isCanonical x) hfinite⟩
    unfold IsNumber at h
    revert h hfinite
    cases x.toModel.unpack with
    | notANumber => exact fun h _ => absurd rfl h
    | infinity s => exact fun _ h => absurd rfl (h s)
    | zero s => exact fun _ _ => rfl
    | finite s m e hm => exact fun _ _ => rfl

section FromOne

theorem grade_one_sub {x : Float} (h : x.toModel.unpack.isFinite = true) :
    grade (1 - x) = rounded (grade 1 - grade x) :=
  worth_sub (isCanonical 1) (isCanonical x) rfl h

theorem unpack_one : (1 : Float).toModel.unpack = .finite .positive (2 ^ 52) (-52) (by decide) :=
  rfl

theorem grade_one_sub_infinite {x : Float} {s : Sign} (h : x.toModel.unpack = .infinity s) :
    grade (1 - x) = (-s).apply limit := by
  show worth (unpack .binary64 (pack .binary64
    (UnpackedFloat.sub .binary64 (1 : Float).toModel.unpack x.toModel.unpack))) = _
  rw [h, unpack_one]
  cases s <;> rfl

theorem isNumber_one_sub {x : Float} (h : IsNumber x) : IsNumber (1 - x) :=
  unpack_pack_ne_notANumber (sub_ne_notANumber (by decide) h)

theorem grade_one_sub_antitone {x y : Float} (hx : IsNumber x) (hy : IsNumber y)
    (h : grade x ≤ grade y) : grade (1 - y) ≤ grade (1 - x) := by
  have hlimit : (0 : Int) < limit := Int.natCast_pos.2 limit_pos
  have hleast := (abs_le.1 (abs_grade_le (1 - x))).1
  have hmost := (abs_le.1 (abs_grade_le (1 - y))).2
  rcases finite_or_infinite hy with ⟨hyf, hylt⟩ | ⟨s, hs⟩
  · rcases finite_or_infinite hx with ⟨hxf, -⟩ | ⟨t, ht⟩
    · rw [grade_one_sub hxf, grade_one_sub hyf]
      exact rounded_mono (by omega)
    · cases t with
      | negative =>
          rw [grade_one_sub_infinite ht]
          exact hmost
      | positive =>
          have hgrade : grade x = limit := by
            rw [grade, ht]
            rfl
          have hless := (abs_lt.1 hylt).2
          omega
  · cases s with
    | positive =>
        rw [grade_one_sub_infinite hs]
        exact hleast
    | negative =>
        -- Only minus infinity is not above minus infinity.
        have hgrade : grade y = -limit := by
          rw [grade, hs]
          rfl
        rcases finite_or_infinite hx with ⟨-, hxlt⟩ | ⟨t, ht⟩
        · have hless := (abs_lt.1 hxlt).1
          omega
        · cases t with
          | negative => rw [grade_one_sub_infinite hs, grade_one_sub_infinite ht]
          | positive =>
              have hgrade' : grade x = limit := by
                rw [grade, ht]
                rfl
              omega

end FromOne

end Retrieval.Number
