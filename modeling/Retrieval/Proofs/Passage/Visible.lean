import Retrieval.Passage.Span
import Retrieval.Proofs.Text.Trim

/-!
# Visible positions

A position of a text is visible if the character there is not blank. What trimming leaves of a slice
depends on the visible positions alone.
-/

namespace Retrieval

open Text

def Visible (text : List Char) (i : Nat) : Prop := ∃ c, text[i]? = some c ∧ isBlank c = false

theorem Visible.lt_length {text : List Char} {i : Nat} (h : Visible text i) : i < text.length := by
  obtain ⟨c, hc, _⟩ := h
  exact (List.getElem?_eq_some_iff.1 hc).1

theorem visible_cons_succ {c : Char} {rest : List Char} {i : Nat} :
    Visible (c :: rest) (i + 1) ↔ Visible rest i := by
  simp only [Visible, List.getElem?_cons_succ]

theorem visible_cons_zero {c : Char} {rest : List Char} :
    Visible (c :: rest) 0 ↔ isBlank c = false := by
  simp [Visible]

namespace Span

variable {text : List Char} {s w : Span}

def Covers (s : Span) (i : Nat) : Prop := s.start ≤ i ∧ i < s.stop

theorem mem_slice {c : Char} :
    c ∈ s.slice text ↔ ∃ i, s.Covers i ∧ text[i]? = some c := by
  simp only [slice, List.mem_iff_getElem?, List.getElem?_take, List.getElem?_drop, length, Covers]
  constructor
  · rintro ⟨i, h⟩
    split at h
    · exact ⟨s.start + i, by omega, h⟩
    · cases h
  · rintro ⟨i, hi, h⟩
    refine ⟨i - s.start, ?_⟩
    rw [if_pos (by omega), Nat.add_sub_cancel' hi.1]
    exact h

theorem slice_append {a b c : Nat} (hab : a ≤ b) (hbc : b ≤ c) (text : List Char) :
    slice ⟨a, c⟩ text = slice ⟨a, b⟩ text ++ slice ⟨b, c⟩ text := by
  have hc : c - a = b - a + (c - b) := by omega
  have hd : text.drop b = (text.drop a).drop (b - a) := by
    rw [List.drop_drop, Nat.add_sub_cancel' hab]
  simp only [slice, length]
  rw [hc, List.take_add, hd]

theorem blank_slice (h : ∀ i, s.Covers i → ¬ Visible text i) :
    ∀ c ∈ s.slice text, isBlank c = true := by
  intro c hc
  obtain ⟨i, hi, he⟩ := mem_slice.1 hc
  by_contra hb
  exact h i hi ⟨c, he, by simpa using hb⟩

theorem trim_slice_eq_nil_iff : trim (s.slice text) = [] ↔ ∀ i, s.Covers i → ¬ Visible text i := by
  refine ⟨?_, fun h => trim_eq_nil_of_blank (blank_slice h)⟩
  rintro h i hi ⟨c, hc, hb⟩
  have := trim_eq_nil_iff.1 h c (mem_slice.2 ⟨i, hi, hc⟩)
  rw [hb] at this
  cases this

/-- What surrounds the visible part of a slice is trimmed away. -/
theorem trim_slice_of_visible_in (hs : s.start ≤ w.start) (hw : w.start ≤ w.stop)
    (he : w.stop ≤ s.stop) (h : ∀ i, s.Covers i → Visible text i → w.Covers i) :
    trim (s.slice text) = trim (w.slice text) := by
  have hbefore : ∀ c ∈ slice ⟨s.start, w.start⟩ text, isBlank c = true :=
    blank_slice fun i hi hv => by
      have := h i ⟨hi.1, by have := hi.2; dsimp only at this; omega⟩ hv
      exact absurd hi.2 (by simpa using this.1)
  have hbehind : ∀ c ∈ slice ⟨w.stop, s.stop⟩ text, isBlank c = true :=
    blank_slice fun i hi hv => by
      have := h i ⟨by have := hi.1; dsimp only at this; omega, hi.2⟩ hv
      exact absurd hi.1 (by simpa using this.2)
  calc trim (s.slice text)
      = trim (slice ⟨s.start, w.start⟩ text ++ (slice ⟨w.start, w.stop⟩ text ++
          slice ⟨w.stop, s.stop⟩ text)) := by
        rw [← slice_append hw he, ← slice_append hs (hw.trans he)]
    _ = trim (w.slice text) := by
        rw [trim_append_of_blank_left hbefore, trim_append_of_blank_right hbehind]

theorem trim_slice_eq_self (hlt : s.start < s.stop) (hfirst : Visible text s.start)
    (hlast : Visible text (s.stop - 1)) : trim (s.slice text) = s.slice text := by
  have hlen : (s.slice text).length = s.stop - s.start :=
    length_slice s (by have := hlast.lt_length; omega)
  obtain ⟨c, hc, hcb⟩ := hfirst
  obtain ⟨d, hd, hdb⟩ := hlast
  refine trim_eq_self (c := c) (d := d) ?_ hcb ?_ hdb
  · rw [List.head?_eq_getElem?, slice, List.getElem?_take, List.getElem?_drop, length,
      if_pos (by omega)]
    exact hc
  · rw [List.getLast?_eq_getElem?, hlen, slice, List.getElem?_take, List.getElem?_drop, length,
      if_pos (by omega), show s.start + (s.stop - s.start - 1) = s.stop - 1 by omega]
    exact hd

theorem visible_slice {i : Nat} :
    Visible (s.slice text) i ↔ s.Covers (s.start + i) ∧ Visible text (s.start + i) := by
  simp only [Visible, slice, List.getElem?_take, List.getElem?_drop, length, Covers]
  by_cases h : i < s.stop - s.start
  · simp only [if_pos h]
    exact ⟨fun hv => ⟨by omega, hv⟩, fun hv => hv.2⟩
  · simp only [if_neg h, reduceCtorEq, false_and, exists_false, false_iff]
    omega

end Span

end Retrieval
