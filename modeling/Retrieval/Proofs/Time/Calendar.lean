import Mathlib.Algebra.Order.Ring.Int
import Retrieval.Time.Calendar

/-!
# Days and dates

Every day of the calendar has one date, and counting the days up to that date gives the day back.
-/

namespace Retrieval.Time

def yearLength (year : Nat) : Nat := if isLeap year then 366 else 365

theorem isLeap_iff {year : Nat} :
    isLeap year = true ↔ 4 ∣ year ∧ (¬ 100 ∣ year ∨ 400 ∣ year) := by
  simp [isLeap, Nat.dvd_iff_mod_eq_zero]

theorem daysBeforeYear_succ {year : Nat} (h : 1 ≤ year) :
    daysBeforeYear (year + 1) = daysBeforeYear year + yearLength year := by
  obtain ⟨n, rfl⟩ : ∃ n, year = n + 1 := ⟨year - 1, by omega⟩
  have hcentury : n / 100 ≤ n / 4 := Nat.div_le_div_left (by decide) (by decide)
  have h100 : 100 ∣ n + 1 → 4 ∣ n + 1 := Nat.dvd_trans (by decide)
  have h400 : 400 ∣ n + 1 → 100 ∣ n + 1 := Nat.dvd_trans (by decide)
  simp only [daysBeforeYear, Nat.add_sub_cancel, yearLength, isLeap_iff, Nat.succ_div]
  generalize n / 4 = fourths at *
  generalize n / 100 = centuries at *
  generalize n / 400 = cycles at *
  by_cases h4 : 4 ∣ n + 1
  · by_cases hc : 100 ∣ n + 1
    · by_cases hq : 400 ∣ n + 1 <;> simp [h4, hc, hq] <;> omega
    · have hq : ¬ 400 ∣ n + 1 := fun hq => hc (h400 hq)
      simp [h4, hc, hq]
      omega
  · have hc : ¬ 100 ∣ n + 1 := fun hc => h4 (h100 hc)
    have hq : ¬ 400 ∣ n + 1 := fun hq => hc (h400 hq)
    simp [h4, hc, hq]
    omega

theorem daysBeforeYear_mono {a b : Nat} (h : a ≤ b) : daysBeforeYear a ≤ daysBeforeYear b := by
  induction h with
  | refl => exact Nat.le_refl _
  | @step b _ ih =>
      cases b with
      | zero => exact ih
      | succ n =>
          have hsucc := daysBeforeYear_succ (show 1 ≤ n + 1 by omega)
          show daysBeforeYear a ≤ daysBeforeYear (n + 1 + 1)
          omega

namespace Date

/-- The days of `years` years from year 1 on, four hundred times over: the mean length of a year is
146097 four hundredths of a day, and the count of leap days is off by less than two days. -/
theorem mean_year (years : Nat) :
    146097 * years ≤ 400 * daysBeforeYear (years + 1) + 699 ∧
      400 * daysBeforeYear (years + 1) ≤ 146097 * years + 396 := by
  simp only [daysBeforeYear, Nat.add_sub_cancel]
  omega

theorem yearOfDay_bounds {day : Nat} (h : 1 ≤ day) :
    1 ≤ yearOfDay day ∧ daysBeforeYear (yearOfDay day) < day ∧
      day ≤ daysBeforeYear (yearOfDay day + 1) := by
  unfold yearOfDay
  generalize hn : (day - 1) * 400 / 146097 = n
  have hlow : 146097 * n ≤ (day - 1) * 400 := by omega
  have hhigh : (day - 1) * 400 < 146097 * (n + 1) := by omega
  -- The estimate by the mean length is off by a year at most, to either side.
  dsimp only
  by_cases hlate : daysBeforeYear (n + 1 + 1) < day
  · rw [if_pos hlate]
    have hnext : 146097 * (n + 2) ≤ 400 * daysBeforeYear (n + 1 + 1 + 1) + 699 :=
      (mean_year (n + 2)).1
    exact ⟨by omega, hlate, by omega⟩
  · rw [if_neg hlate]
    by_cases hearly : day ≤ daysBeforeYear (n + 1)
    · rw [if_pos hearly]
      obtain ⟨k, rfl⟩ : ∃ k, n = k + 1 := by
        cases n with
        | zero =>
            have hzero : daysBeforeYear (0 + 1) = 0 := by decide
            omega
        | succ k => exact ⟨k, rfl⟩
      have hbefore := mean_year k
      refine ⟨by omega, ?_, ?_⟩
      · rw [Nat.add_sub_cancel]
        omega
      · rw [Nat.add_sub_cancel]
        exact hearly
    · rw [if_neg hearly]
      exact ⟨by omega, by omega, by omega⟩

/-- The day with `rest` days before it lies in the month before which the lengths add up to no more
than `rest`. -/
theorem monthAndDay_eq {rest : Nat} {lengths : List Nat} (month : Nat) (h : rest < lengths.sum) :
    ∃ i, i < lengths.length ∧ (lengths.take i).sum ≤ rest ∧
      rest < (lengths.take i).sum + lengths.getD i 0 ∧
      monthAndDay month rest lengths = (month + i, rest - (lengths.take i).sum + 1) := by
  induction lengths generalizing month rest with
  | nil => simp at h
  | cons length lengths ih =>
      rw [monthAndDay]
      by_cases hl : rest < length
      · rw [if_pos hl]
        exact ⟨0, by simp, by simp, by simpa using hl, by simp⟩
      · rw [if_neg hl]
        rw [List.sum_cons] at h
        obtain ⟨i, hi, hle, hlt, he⟩ := ih (month + 1) (by omega : rest - length < lengths.sum)
        refine ⟨i + 1, by simpa using hi, ?_, ?_, ?_⟩
        · simp only [List.take_succ_cons, List.sum_cons]
          omega
        · simp only [List.take_succ_cons, List.sum_cons, List.getD_cons_succ]
          omega
        · simp only [he, List.take_succ_cons, List.sum_cons, Prod.mk.injEq]
          omega

theorem sum_monthLengths (year : Nat) : (monthLengths year).sum = yearLength year := by
  unfold monthLengths yearLength
  split <;> rfl

theorem ofDay_eq {day : Nat} (h : 1 ≤ day) : ∃ i, i < 12 ∧
    daysBeforeYear (yearOfDay day) + ((monthLengths (yearOfDay day)).take i).sum < day ∧
    day ≤ daysBeforeYear (yearOfDay day) + ((monthLengths (yearOfDay day)).take i).sum +
      (monthLengths (yearOfDay day)).getD i 0 ∧
    ofDay day = ⟨yearOfDay day, i + 1,
      day - daysBeforeYear (yearOfDay day) - ((monthLengths (yearOfDay day)).take i).sum⟩ := by
  obtain ⟨hy, hlow, hhigh⟩ := yearOfDay_bounds h
  rw [daysBeforeYear_succ hy, ← sum_monthLengths] at hhigh
  obtain ⟨i, hi, hle, hlt, he⟩ := monthAndDay_eq 1
    (by omega : day - daysBeforeYear (yearOfDay day) - 1 < (monthLengths (yearOfDay day)).sum)
  refine ⟨i, hi, by omega, by omega, ?_⟩
  rw [ofDay]
  simp only [he, mk.injEq, true_and]
  omega

theorem toDay_ofDay {day : Nat} (h : 1 ≤ day) : (ofDay day).toDay = day := by
  obtain ⟨i, -, hlow, -, he⟩ := ofDay_eq h
  rw [he, toDay, ← List.sum_eq_foldl]
  simp only [Nat.add_sub_cancel]
  omega

theorem isValid_ofDay {day : Nat} (h : 1 ≤ day) (hlast : day ≤ lastDay) :
    (ofDay day).isValid = true := by
  obtain ⟨hy, hyear, -⟩ := yearOfDay_bounds h
  obtain ⟨i, hi, hlow, hhigh, he⟩ := ofDay_eq h
  have hlastYear : yearOfDay day ≤ lastYear := by
    by_contra hgt
    have := daysBeforeYear_mono (show lastYear + 1 ≤ yearOfDay day by omega)
    rw [lastDay] at hlast
    omega
  rw [he]
  simp only [isValid, monthLength, Nat.add_sub_cancel, Bool.and_eq_true, decide_eq_true_eq]
  omega

end Date

end Retrieval.Time
