import Retrieval.Proofs.Time.TextOrder
import Retrieval.Proofs.Value.Stored

/-!
# Filters on dates

A date is kept as a moment or as the text under which it is stored, in a record as well as in a
filter. Either way a predicate compares the instants: moments are compared as instants, a text is
read back when it meets a moment, and two texts stand in the order of their instants.

Moments that belong to a region are the exception. Two of one region are compared by their local
times, and one whose offset depends on how its local time is read equals nothing beyond its region.
Kept as text they are like all others.
-/

namespace Retrieval

open Time

theorem compareInts_lt_iff {x y : Int} : compareInts x y = .lt ↔ x < y := by
  unfold compareInts
  split
  · next h => simp [h]
  · next h => split <;> simp [h]

theorem compareInts_gt_iff {x y : Int} : compareInts x y = .gt ↔ y < x := by
  unfold compareInts
  split
  · next h => simp [h.le]
  · next h => split <;> simp <;> omega

def Operator.relates (op : Operator) (x y : Int) : Bool :=
  match op with
  | .eq => x = y
  | .ne => x ≠ y
  | .gt => y < x
  | .gte => y ≤ x
  | .lt => x < y
  | .lte => x ≤ y
  | .contains => false

/-- The value is the moment, or the text under which the moment is stored. -/
def Time.Moment.KeptAs (m : Moment) (v : Value) : Prop :=
  v = .moment m ∨ ∃ s, m.stored = .ok s ∧ v = .text s

namespace Value

variable {a b : Moment} {s t : String} {v w : Value}

theorem compareTexts_stored (ha : a.stored = .ok s) (hb : b.stored = .ok t) :
    compareTexts s t = compareInts a.instant b.instant := by
  unfold compareTexts compareInts
  rcases Int.lt_trichotomy a.instant b.instant with h | h | h
  · rw [if_pos h, if_pos (Moment.stored_lt ha hb h)]
  · obtain rfl : s = t := (Moment.stored_eq_iff ha hb).2 h
    rw [if_neg (String.lt_irrefl s), if_pos rfl, if_neg h.not_lt, if_pos h]
  · have hless := Moment.stored_lt hb ha h
    have hne : s ≠ t := fun he => h.ne' ((Moment.stored_eq_iff ha hb).1 he)
    rw [if_neg (String.lt_asymm hless), if_neg hne, if_neg h.not_gt, if_neg h.ne']

/-- What is read of a date as it is kept: its instant, and of a moment what else it says. -/
structure Reads (a : Moment) (v : Value) (x : Moment) : Prop where
  timestamp : v.timestamp? = some x
  instant : x.instant = a.instant
  doubtful : x.isDoubtful = (v.isMoment && a.isDoubtful)
  moment : v.isMoment = true → x.micros = a.micros ∧ x.region? = a.region?
  text : v.isMoment = false → x.region? = none

theorem exists_reads (h : a.KeptAs v) : ∃ x, Reads a v x := by
  rcases h with rfl | ⟨s, hs, rfl⟩
  · exact ⟨a.assumeUniversal, rfl, Moment.instant_assumeUniversal a,
      Moment.isDoubtful_assumeUniversal a, fun _ => ⟨rfl, Moment.region?_assumeUniversal a⟩,
      (by cases ·)⟩
  · exact ⟨_, timestamp?_stored hs, Moment.instant_fixed_zero _, Moment.isDoubtful_fixed _ _,
      (by cases ·), fun _ => Moment.region?_fixed _ _⟩

theorem isBool_keptAs (h : a.KeptAs v) : v.isBool = false := by
  rcases h with rfl | ⟨s, -, rfl⟩
  · rfl
  · rfl

theorem isDatable_keptAs (h : a.KeptAs v) : v.isDatable = true := by
  rcases h with rfl | ⟨s, -, rfl⟩
  · rfl
  · rfl

theorem agrees_of_isMoment (hv : v.isBool = false) (hw : w.isBool = false)
    (h : (v.isMoment || w.isMoment) = true) {x y : Moment} (hx : v.timestamp? = some x)
    (hy : w.timestamp? = some y) : v.agrees w = x.equals y := by
  cases v <;> cases w <;> simp_all [agrees, isBool, isMoment]

section Reading

variable {x y : Moment} (hx : Reads a v x) (hy : Reads b w y)
include hx hy

theorem sharesRegion_of_reads :
    x.sharesRegion y = (v.isMoment && w.isMoment && a.sharesRegion b) := by
  cases hv : v.isMoment with
  | false => exact Moment.sharesRegion_of_region? (.inl (hx.text hv))
  | true =>
      cases hw : w.isMoment with
      | false => exact Moment.sharesRegion_of_region? (.inr (hy.text hw))
      | true =>
          rw [Moment.sharesRegion, Moment.sharesRegion, (hx.moment hv).2, (hy.moment hw).2]
          rfl

theorem compare_of_reads : x.compare y =
    if v.isMoment && w.isMoment && a.sharesRegion b then compareInts a.micros b.micros
    else compareInts a.instant b.instant := by
  rw [Moment.compare, sharesRegion_of_reads hx hy, hx.instant, hy.instant]
  split
  · next h =>
      simp only [Bool.and_eq_true] at h
      rw [(hx.moment h.1.1).1, (hy.moment h.1.2).1]
  · rfl

theorem equals_of_reads : x.equals y =
    if v.isMoment && w.isMoment && a.sharesRegion b then a.micros == b.micros
    else !(v.isMoment && a.isDoubtful) && !(w.isMoment && b.isDoubtful) &&
      a.instant == b.instant := by
  rw [Moment.equals, sharesRegion_of_reads hx hy, hx.doubtful, hy.doubtful, hx.instant, hy.instant]
  split
  · next h =>
      simp only [Bool.and_eq_true] at h
      rw [(hx.moment h.1.1).1, (hy.moment h.1.2).1]
  · rfl

end Reading

end Value

/-- What a predicate says of two dates as they are kept. -/
def Operator.judges (op : Operator) (a b : Moment) (v w : Value) : Bool :=
  if v.isMoment && w.isMoment && a.sharesRegion b then op.relates a.micros b.micros
  else if (op == .eq || op == .ne) && ((v.isMoment && a.isDoubtful) || (w.isMoment && b.isDoubtful))
    then op == .ne
  else op.relates a.instant b.instant

theorem Operator.judges_of_region? {op : Operator} {a b : Moment} (ha : a.region? = none)
    (hb : b.region? = none) (v w : Value) :
    op.judges a b v w = op.relates a.instant b.instant := by
  simp [judges, Moment.sharesRegion_of_region? (.inl ha), Moment.isDoubtful_of_region? ha,
    Moment.isDoubtful_of_region? hb]

theorem Operator.admits_compareInts {op : Operator} (heq : op ≠ .eq) (hne : op ≠ .ne)
    (hop : op ≠ .contains) (x y : Int) : op.admits (compareInts x y) = op.relates x y := by
  cases op with
  | eq => exact absurd rfl heq
  | ne => exact absurd rfl hne
  | contains => exact absurd rfl hop
  | gt | gte | lt | lte =>
      rw [Bool.eq_iff_iff]
      simp [admits, relates, compareInts_lt_iff, compareInts_gt_iff]

theorem Predicate.testsLegibly_keptAs {a b : Moment} {v w : Value} {op : Operator}
    (hop : op ≠ .contains) (ha : a.KeptAs v) (hb : b.KeptAs w) (field : String) :
    Predicate.testsLegibly ⟨field, op, w⟩ v = true := by
  have hcompares : v.comparesLegibly w = true := by
    rw [Value.comparesLegibly, Value.isDatable_keptAs ha, Value.isDatable_keptAs hb]
    exact Bool.or_true _
  cases op with
  | contains => exact absurd rfl hop
  | _ => exact hcompares

theorem Predicate.test_of_reads {a b x y : Moment} {v w : Value} {op : Operator}
    (hop : op ≠ .contains) (hx : Value.Reads a v x) (hy : Value.Reads b w y)
    (hv : v.isBool = false) (hw : w.isBool = false)
    (hmoment : (v.isMoment || w.isMoment) = true) (field : String) :
    Predicate.test ⟨field, op, w⟩ v = op.judges a b v w := by
  have hagrees : v.agrees w = x.equals y :=
    Value.agrees_of_isMoment hv hw hmoment hx.timestamp hy.timestamp
  have hcompare : v.compare? w = some (x.compare y) := by
    simp only [Value.compare?, hv, hw, hmoment, hx.timestamp, hy.timestamp]
    rfl
  rw [Value.equals_of_reads hx hy] at hagrees
  rw [Value.compare_of_reads hx hy] at hcompare
  cases op with
  | contains => exact absurd rfl hop
  | eq | ne =>
      simp only [test, hagrees, Operator.judges, Operator.relates]
      cases v.isMoment && w.isMoment && a.sharesRegion b <;>
        cases v.isMoment && a.isDoubtful <;> cases w.isMoment && b.isDoubtful <;>
        simp [Bool.beq_eq_decide_eq]
  | gt | gte | lt | lte =>
      simp only [test, hcompare, Operator.judges, Option.any_some]
      by_cases hshared : (v.isMoment && w.isMoment && a.sharesRegion b) = true
      · rw [if_pos hshared, if_pos hshared]
        exact Operator.admits_compareInts (by decide) (by decide) (by decide) _ _
      · rw [if_neg hshared, if_neg hshared]
        exact Operator.admits_compareInts (by decide) (by decide) (by decide) _ _

theorem Predicate.test_keptAs {a b : Moment} {v w : Value} {op : Operator} (hop : op ≠ .contains)
    (ha : a.KeptAs v) (hb : b.KeptAs w) (field : String) :
    Predicate.test ⟨field, op, w⟩ v = op.judges a b v w := by
  obtain ⟨x, hx⟩ := Value.exists_reads ha
  obtain ⟨y, hy⟩ := Value.exists_reads hb
  by_cases hmoment : (v.isMoment || w.isMoment) = true
  · exact test_of_reads hop hx hy (Value.isBool_keptAs ha) (Value.isBool_keptAs hb) hmoment field
  -- Two texts are never read: they are compared as they are.
  · rcases ha with rfl | ⟨s, hs, rfl⟩
    · exact absurd rfl hmoment
    rcases hb with rfl | ⟨t, ht, rfl⟩
    · exact absurd rfl hmoment
    have hcompare : (Value.text s).compare? (.text t) =
        some (compareInts a.instant b.instant) := by
      rw [← Value.compareTexts_stored hs ht]
      rfl
    have hagrees : (Value.text s).agrees (.text t) = decide (a.instant = b.instant) := by
      rw [Value.agrees_text, ← decide_eq_decide.2 (Moment.stored_eq_iff hs ht)]
      rfl
    have hjudges : op.judges a b (.text s) (.text t) = op.relates a.instant b.instant := by
      simp [Operator.judges, Value.isMoment]
    rw [hjudges]
    cases op with
    | contains => exact absurd rfl hop
    | eq | ne => simp [test, hagrees, Operator.relates]
    | gt | gte | lt | lte =>
        rw [← Operator.admits_compareInts (by decide) (by decide) (by decide)]
        simp [test, hcompare]

/-- Half past two comes twice in the night in which the clocks of a region are put back. As moments
the two readings are one time; against its text the first is an hour before the second. -/
example :
    let reading (fold : Bool) (offset other : Int) : Moment :=
      { Moment.ofDateClock ⟨2024, 10, 27⟩ ⟨2, 30, 0, 0⟩ none with
        zone := some ⟨offset, some ⟨"Berlin", fold, other⟩⟩ }
    let a := reading false 7200000000 3600000000
    let b := reading true 3600000000 7200000000
    (Filter.pred ⟨"at", .lt, .moment b⟩).evaluate [("at", .moment a)] = .ok false ∧
      b.stored = .ok "2024-10-27T01:30:00+00:00" ∧
      (Filter.pred ⟨"at", .lt, .text "2024-10-27T01:30:00+00:00"⟩).evaluate [("at", .moment a)] =
        .ok true :=
  ⟨rfl, rfl, rfl⟩

end Retrieval
