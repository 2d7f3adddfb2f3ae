import Retrieval.Proofs.Filter.Legible
import Retrieval.Proofs.Time.IsoText

/-!
# Moments kept as text

A moment that belongs to no region and the text under which it is stored compare alike with other
moments, and with whatever compares with neither of them. Only texts and numbers can tell the two
apart, for a moment compares with those that name a moment, and a text with other texts only.
-/

namespace Retrieval

open Time

namespace Time.Moment

variable {a b : Moment}

@[simp] theorem region?_fixed (micros : Int) (offset : Option Int) :
    (fixed micros offset).region? = none := by
  cases offset <;> rfl

@[simp] theorem isDoubtful_fixed (micros : Int) (offset : Option Int) :
    (fixed micros offset).isDoubtful = false := by
  cases offset <;> rfl

@[simp] theorem region?_assumeUniversal (m : Moment) : m.assumeUniversal.region? = m.region? := by
  rcases m with ⟨micros, _ | zone⟩ <;> rfl

@[simp] theorem isDoubtful_assumeUniversal (m : Moment) :
    m.assumeUniversal.isDoubtful = m.isDoubtful := by
  rcases m with ⟨micros, _ | zone⟩ <;> rfl

theorem isDoubtful_of_region? (h : a.region? = none) : a.isDoubtful = false := by
  rcases a with ⟨micros, _ | ⟨offset, _ | region⟩⟩
  · rfl
  · rfl
  · cases h

theorem sharesRegion_of_region? (h : a.region? = none ∨ b.region? = none) :
    a.sharesRegion b = false := by
  rcases h with h | h
  · rw [sharesRegion, h]
    rfl
  · rw [sharesRegion, h]
    cases a.region? <;> rfl

theorem compare_of_region? (h : a.region? = none ∨ b.region? = none) :
    a.compare b = compareInts a.instant b.instant := by
  rw [compare, sharesRegion_of_region? h]
  rfl

theorem equals_of_region? (h : a.region? = none ∨ b.region? = none) :
    a.equals b = (!a.isDoubtful && !b.isDoubtful && a.instant == b.instant) := by
  rw [equals, sharesRegion_of_region? h]
  rfl

end Time.Moment

namespace Value

variable {m : Moment} {s : String}

theorem timestamp?_stored (h : m.stored = .ok s) :
    (Value.text s).timestamp? = some (.fixed m.instant (some 0)) := by
  simp only [timestamp?, Moment.ofText?_stored h]
  rfl

theorem compare?_stored (h : m.stored = .ok s) (hregion : m.region? = none) {v : Value}
    (htext : v.text? = none) (hnumber : Pushdown.isNumber v = false) :
    (Value.text s).compare? v = (Value.moment m).compare? v := by
  cases v with
  | moment m' =>
      have hm : (Value.moment m).timestamp? = some m.assumeUniversal := rfl
      have hm' : (Value.moment m').timestamp? = some m'.assumeUniversal := rfl
      simp [compare?, isBool, isMoment, timestamp?_stored h, hm, hm', Moment.compare_of_region?,
        hregion]
  | text t => cases htext
  | int n => cases hnumber
  | real x => cases hnumber
  | bool b => rfl
  | null | bytes _ | list _ | map _ => rfl

theorem agrees_stored (h : m.stored = .ok s) (hregion : m.region? = none) {v : Value}
    (htext : v.text? = none) (hnumber : Pushdown.isNumber v = false) :
    (Value.text s).agrees v = (Value.moment m).agrees v := by
  cases v with
  | text t => cases htext
  | int n => cases hnumber
  | real x => cases hnumber
  | bool b => rfl
  | moment m' =>
      have hm : (Value.moment m).timestamp? = some m.assumeUniversal := rfl
      have hm' : (Value.moment m').timestamp? = some m'.assumeUniversal := rfl
      simp [agrees, isBool, isMoment, timestamp?_stored h, hm, hm', Moment.equals_of_region?,
        hregion, Moment.isDoubtful_of_region? hregion]
  | null | bytes _ | list _ | map _ => rfl

end Value

/-- A predicate cannot tell a moment of no region from its stored text, unless it looks for a text in
it or compares it with a text or a number. -/
theorem Predicate.test_stored {m : Moment} {s : String} (h : m.stored = .ok s)
    (hregion : m.region? = none) {p : Predicate} (hop : p.op ≠ .contains)
    (htext : p.value.text? = none) (hnumber : Pushdown.isNumber p.value = false) :
    p.test (.text s) = p.test (.moment m) := by
  have hcompare := Value.compare?_stored h hregion htext hnumber
  have hagrees := Value.agrees_stored h hregion htext hnumber
  cases hp : p.op with
  | contains => exact absurd hp hop
  | eq | ne | gt | gte | lt | lte => simp only [Predicate.test, hp, hcompare, hagrees]

end Retrieval
