import Mathlib.Data.List.TakeWhile
import Retrieval.Text.Blank

/-!
# Trimming

Trimming drops blanks at either end and nothing else: blanks put around a text do not change what
is left of it, and a text that begins and ends with other characters stays as it is.
-/

namespace Retrieval.Text

variable {text blanks : List Char}

theorem trimLeft_append_of_blank (h : ∀ c ∈ blanks, isBlank c = true) (text : List Char) :
    trimLeft (blanks ++ text) = trimLeft text :=
  List.dropWhile_append_of_pos h

theorem trimRight_append_of_blank (h : ∀ c ∈ blanks, isBlank c = true) (text : List Char) :
    trimRight (text ++ blanks) = trimRight text := by
  rw [trimRight, List.reverse_append,
    List.dropWhile_append_of_pos fun c hc => h c (List.mem_reverse.1 hc), trimRight]

theorem trim_append_of_blank_left (h : ∀ c ∈ blanks, isBlank c = true) (text : List Char) :
    trim (blanks ++ text) = trim text := by
  rw [trim, trimLeft_append_of_blank h, trim]

theorem trim_eq_nil_of_blank (h : ∀ c ∈ text, isBlank c = true) : trim text = [] := by
  have := trim_append_of_blank_left h []
  rwa [List.append_nil] at this

theorem trim_append_of_blank_right (h : ∀ c ∈ blanks, isBlank c = true) (text : List Char) :
    trim (text ++ blanks) = trim text := by
  by_cases ht : ∀ c ∈ text, isBlank c = true
  · rw [trim_append_of_blank_left ht, trim_eq_nil_of_blank h, trim_eq_nil_of_blank ht]
  · have hne : (text.dropWhile isBlank).isEmpty = false := by
      rw [Bool.eq_false_iff, Ne, List.isEmpty_iff, List.dropWhile_eq_nil_iff]
      exact ht
    rw [trim, trimLeft, List.dropWhile_append, hne]
    exact trimRight_append_of_blank h _

theorem trim_eq_self {c d : Char} (hfirst : text.head? = some c) (hc : isBlank c = false)
    (hlast : text.getLast? = some d) (hd : isBlank d = false) : trim text = text := by
  have hl : trimLeft text = text := by
    cases text with
    | nil => cases hfirst
    | cons a rest =>
        obtain rfl := Option.some.inj hfirst
        rw [trimLeft, List.dropWhile_cons_of_neg (by simp [hc])]
  have hr : text.reverse.dropWhile isBlank = text.reverse := by
    rw [← List.head?_reverse] at hlast
    cases h : text.reverse with
    | nil => rfl
    | cons a rest =>
        rw [h] at hlast
        obtain rfl := Option.some.inj hlast
        rw [List.dropWhile_cons_of_neg (by simp [hd])]
  rw [trim, hl, trimRight, hr, List.reverse_reverse]

theorem trim_eq_nil_iff : trim text = [] ↔ ∀ c ∈ text, isBlank c = true := by
  refine ⟨fun h => ?_, trim_eq_nil_of_blank⟩
  rw [trim, trimRight, List.reverse_eq_nil_iff, List.dropWhile_eq_nil_iff] at h
  have hl : trimLeft text = [] := by
    rw [trimLeft] at h ⊢
    cases hd : text.dropWhile isBlank with
    | nil => rfl
    | cons a rest =>
        have ha : isBlank a = true := h a (by simp [hd])
        have hn := List.head?_dropWhile_not isBlank text
        rw [hd] at hn
        simp [ha] at hn
  exact List.dropWhile_eq_nil_iff.1 hl

theorem length_trim_le (text : List Char) : (trim text).length ≤ text.length := by
  rw [trim, trimRight, List.length_reverse]
  refine (List.length_dropWhile_le _ _).trans ?_
  rw [List.length_reverse]
  exact List.length_dropWhile_le _ _

/-- No sign among the first 128 characters is blank. -/
theorem isBlank_of_sign {c : Char} (hlow : 33 ≤ c.toNat) (hhigh : c.toNat ≤ 126) :
    isBlank c = false := by
  simp only [isBlank, inRanges, blankRanges, List.any_eq_false, List.mem_cons, Bool.and_eq_true,
    decide_eq_true_eq]
  rintro range (rfl | rfl | rfl | rfl | rfl | rfl | rfl | rfl | rfl | rfl | hnil)
  any_goals omega
  cases hnil

end Retrieval.Text
