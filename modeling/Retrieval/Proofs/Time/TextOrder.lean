import Retrieval.Proofs.Time.IsoText

/-!
# Stored timestamps stand in order

Texts are compared character by character. The text of an instant has a fixed number of digits for
every part of the date and the time of day, greatest part first, so of two instants the earlier one
has the lesser text. A fraction of a second is only written if there is one; then the plus sign of
the one text meets the point of the other, which comes behind it.
-/

namespace Retrieval.Time

theorem fixedDigits_lt {count n n' : Nat} (h : n < n') (hn : n' < 10 ^ count)
    (rest rest' : List Char) : fixedDigits count n ++ rest < fixedDigits count n' ++ rest' := by
  induction count generalizing n n' rest rest' with
  | zero => omega
  | succ count ih =>
      rw [Nat.pow_succ] at hn
      rw [fixedDigits, fixedDigits, List.append_assoc, List.append_assoc]
      by_cases htens : n / 10 < n' / 10
      · exact ih htens (by omega) _ _
      · have hsame : n / 10 = n' / 10 := by omega
        have hlast : n % 10 < n' % 10 := by omega
        have hvalue := Nat.toNat_digitChar_of_lt_ten (Nat.mod_lt n (show 10 > 0 by decide))
        have hvalue' := Nat.toNat_digitChar_of_lt_ten (Nat.mod_lt n' (show 10 > 0 by decide))
        have hdigit : Nat.digitChar (n % 10) < Nat.digitChar (n' % 10) := by
          show (Nat.digitChar (n % 10)).toNat < (Nat.digitChar (n' % 10)).toNat
          omega
        rw [hsame]
        exact List.append_left_lt (List.cons_lt_cons_iff.2 (Or.inl hdigit))

theorem lt_behind (lead : List Char) (c : Char) {rest rest' : List Char} (h : rest < rest') :
    lead ++ c :: rest < lead ++ c :: rest' :=
  List.append_left_lt (List.cons_lt_cons_iff.2 (Or.inr ⟨rfl, h⟩))

namespace Date

def Before (a b : Date) : Prop :=
  a.year < b.year ∨ a.year = b.year ∧ (a.month < b.month ∨ a.month = b.month ∧ a.day < b.day)

theorem sum_take_add_le (lengths : List Nat) {i j : Nat} (h : j < i) :
    (lengths.take j).sum + lengths.getD j 0 ≤ (lengths.take i).sum := by
  have hsplit := List.take_append_drop (j + 1) (lengths.take i)
  rw [List.take_take, Nat.min_eq_left h] at hsplit
  have hmonth : (lengths.take (j + 1)).sum = (lengths.take j).sum + lengths.getD j 0 := by
    rw [List.take_add_one, List.sum_append, List.getD_eq_getElem?_getD]
    cases lengths[j]? <;> simp
  rw [← hsplit, List.sum_append, hmonth]
  exact Nat.le_add_right _ _

theorem before_ofDay {a b : Nat} (ha : 1 ≤ a) (h : a < b) : (ofDay a).Before (ofDay b) := by
  obtain ⟨hyearA, hlowA, hhighA⟩ := yearOfDay_bounds ha
  obtain ⟨hyearB, hlowB, hhighB⟩ := yearOfDay_bounds (ha.trans h.le)
  obtain ⟨i, hi, hstartA, hendA, hdateA⟩ := ofDay_eq ha
  obtain ⟨j, hj, hstartB, hendB, hdateB⟩ := ofDay_eq (ha.trans h.le)
  rw [hdateA, hdateB]
  rcases Nat.lt_trichotomy (yearOfDay a) (yearOfDay b) with hyear | hyear | hyear
  · exact Or.inl hyear
  · refine Or.inr ⟨hyear, ?_⟩
    dsimp only
    rw [← hyear] at hstartB hendB ⊢
    rcases Nat.lt_trichotomy i j with hmonth | rfl | hmonth
    · exact Or.inl (Nat.succ_lt_succ hmonth)
    · exact Or.inr ⟨rfl, by omega⟩
    · -- the month of the later day would end before that of the earlier one begins
      have hsum := sum_take_add_le (monthLengths (yearOfDay a)) hmonth
      omega
  · have hpast := daysBeforeYear_mono (show yearOfDay b + 1 ≤ yearOfDay a from hyear)
    omega

theorem text_lt {a b : Date} (hb : b.isValid = true) (h : a.Before b) (rest rest' : List Char) :
    a.text ++ rest < b.text ++ rest' := by
  obtain ⟨⟨-, hyear⟩, ⟨-, hmonth⟩, -, hday⟩ := isValid_iff.1 hb
  have hlength := monthLength_le b.year b.month
  have hlast : lastYear < 10 ^ 4 := by decide
  simp only [text, List.append_assoc, List.cons_append]
  rcases h with h | ⟨hsame, h | ⟨hsame', h⟩⟩
  · exact fixedDigits_lt h (by omega) _ _
  · rw [hsame]
    refine lt_behind _ _ ?_
    exact fixedDigits_lt h (by omega) _ _
  · rw [hsame, hsame']
    refine lt_behind _ _ ?_
    refine lt_behind _ _ ?_
    exact fixedDigits_lt h (by omega) _ _

end Date

namespace Clock

def Before (a b : Clock) : Prop :=
  a.hour < b.hour ∨ a.hour = b.hour ∧ (a.minute < b.minute ∨ a.minute = b.minute ∧
    (a.second < b.second ∨ a.second = b.second ∧ a.micro < b.micro))

theorem before_ofMicros {a b : Nat} (h : a < b) : (ofMicros a).Before (ofMicros b) := by
  simp only [Before, ofMicros]
  omega

/-- A time of day without a fraction is read before the same time with one. -/
theorem fraction_lt {micro micro' : Nat} (hmicro : micro' < 1000000) (h : micro < micro')
    (rest : List Char) :
    (if micro = 0 then [] else '.' :: fixedDigits 6 micro) ++ '+' :: rest <
      (if micro' = 0 then [] else '.' :: fixedDigits 6 micro') ++ '+' :: rest := by
  rw [if_neg (by omega : ¬ micro' = 0)]
  by_cases hzero : micro = 0
  · rw [if_pos hzero]
    exact List.cons_lt_cons_iff.2 (Or.inl (by decide))
  · rw [if_neg hzero]
    exact List.cons_lt_cons_iff.2 (Or.inr ⟨rfl, fixedDigits_lt h hmicro _ _⟩)

theorem text_lt {a b : Clock} (hb : b.isValid = true) (h : a.Before b) (rest : List Char) :
    a.text ++ '+' :: rest < b.text ++ '+' :: rest := by
  obtain ⟨hhour, hminute, hsecond, hmicro⟩ := isValid_iff.1 hb
  simp only [text, List.append_assoc, List.cons_append]
  rcases h with h | ⟨hsame, h | ⟨hsame', h | ⟨hsame'', h⟩⟩⟩
  · exact fixedDigits_lt h (by omega) _ _
  · rw [hsame]
    refine lt_behind _ _ ?_
    exact fixedDigits_lt h (by omega) _ _
  · rw [hsame, hsame']
    refine lt_behind _ _ ?_
    refine lt_behind _ _ ?_
    exact fixedDigits_lt h (by omega) _ _
  · rw [hsame, hsame', hsame'']
    refine lt_behind _ _ ?_
    refine lt_behind _ _ ?_
    exact List.append_left_lt (fraction_lt hmicro h rest)

end Clock

namespace Moment

variable {a b : Moment} {s t : String}

theorem stored_eq (h : inCalendar a.instant = true) :
    a.stored = .ok (render (fixed a.instant (some 0))) := by
  rw [stored, toUniversal?, if_pos h]

theorem inCalendar_of_stored (h : a.stored = .ok s) : inCalendar a.instant = true := by
  by_contra hout
  rw [stored, toUniversal?, if_neg hout] at h
  cases h

theorem toList_stored (h : a.stored = .ok s) :
    s.toList = text (date (fixed a.instant (some 0))) (clock (fixed a.instant (some 0))) := by
  have hin := inCalendar_of_stored h
  obtain rfl := Except.ok.inj ((stored_eq hin).symm.trans h)
  exact toList_render hin rfl

theorem before_of_lt (ha : inCalendar a.micros = true) (h : a.micros < b.micros) :
    a.date.Before b.date ∨ a.date = b.date ∧ a.clock.Before b.clock := by
  obtain ⟨hfirst, -⟩ := day_bounds ha
  have hunit : (0 : Int) < microsPerDay := by decide
  have hdays : a.micros / microsPerDay ≤ b.micros / microsPerDay :=
    Int.ediv_le_ediv hunit h.le
  rcases hdays.lt_or_eq with hday | hday
  · refine Or.inl (Date.before_ofDay hfirst ?_)
    simp only [day] at hfirst ⊢
    omega
  · refine Or.inr ⟨by rw [date, date, day, day, hday], Clock.before_ofMicros ?_⟩
    have hnonneg : 0 ≤ a.micros % microsPerDay := Int.emod_nonneg _ hunit.ne'
    have hsplit := Int.mul_ediv_add_emod a.micros microsPerDay
    have hsplit' := Int.mul_ediv_add_emod b.micros microsPerDay
    rw [hday] at hsplit
    omega

theorem stored_lt (ha : a.stored = .ok s) (hb : b.stored = .ok t) (h : a.instant < b.instant) :
    s < t := by
  have hinA := inCalendar_of_stored ha
  have hinB := inCalendar_of_stored hb
  have hdate : (date (fixed b.instant (some 0))).isValid = true :=
    Date.isValid_ofDay (day_bounds hinB).1 (day_bounds hinB).2
  rw [String.lt_iff, toList_stored ha, toList_stored hb, text, text]
  rcases before_of_lt (a := fixed a.instant (some 0)) (b := fixed b.instant (some 0)) hinA h with
    hbefore | ⟨hsame, hbefore⟩
  · exact Date.text_lt hdate hbefore _ _
  · rw [hsame]
    refine lt_behind _ _ ?_
    exact Clock.text_lt (isValid_clock _) hbefore _

/-- An instant is stored under one text, and a text stands for one instant. -/
theorem stored_eq_iff (ha : a.stored = .ok s) (hb : b.stored = .ok t) :
    s = t ↔ a.instant = b.instant := by
  constructor
  · rintro rfl
    have hread := (ofText?_stored ha).symm.trans (ofText?_stored hb)
    exact congrArg Moment.micros (Option.some.inj hread)
  · intro h
    have hin := inCalendar_of_stored ha
    rw [stored_eq hin, h, ← stored_eq (h ▸ hin), hb] at ha
    exact (Except.ok.inj ha).symm

end Moment

end Retrieval.Time
