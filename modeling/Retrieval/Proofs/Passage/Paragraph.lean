import Mathlib.Data.List.Count
import Retrieval.Proofs.Passage.Between
import Retrieval.Proofs.Text.Pattern

/-!
# Paragraphs part at blank lines

A blank line is a line end, blanks, and another line end. Paragraphs are what lies between the blank
lines that a search from left to right finds, and they part two neighbouring characters exactly when
the blanks between them hold two line ends.
-/

namespace Retrieval.Paragraph

open Text Pattern

def blankLine : Pattern :=
  [.take (· == '\n') 1 (some 1), .take isBlank 0 none, .take (· == '\n') 1 (some 1)]

variable {text before ahead : List Char} {parts : List (List Char)} {i j : Nat}

theorem reads_blankLine_iff : Reads blankLine before ahead parts ↔
    ∃ blanks rest, (∀ c ∈ blanks, isBlank c = true) ∧ ahead = '\n' :: (blanks ++ '\n' :: rest) ∧
      parts = [['\n'], blanks, ['\n']] := by
  constructor
  · intro h
    obtain ⟨c, _, _, rfl, rfl, hc, h⟩ := reads_one_iff.1 h
    obtain ⟨blanks, _, _, rfl, rfl, hblanks, _, _, h⟩ := reads_take_iff.1 h
    obtain ⟨d, rest, _, rfl, rfl, hd, h⟩ := reads_one_iff.1 h
    cases h
    obtain rfl := beq_iff_eq.1 hc
    obtain rfl := beq_iff_eq.1 hd
    exact ⟨blanks, rest, hblanks, rfl, rfl⟩
  · rintro ⟨blanks, rest, hblanks, rfl, rfl⟩
    refine reads_one_iff.2 ⟨_, _, _, rfl, rfl, rfl, .take hblanks (Nat.zero_le _) ?_ ?_⟩
    · exact fun _ hn => nomatch hn
    · exact reads_one_iff.2 ⟨_, _, _, rfl, rfl, rfl, .done⟩

theorem isBlank_lineEnd : isBlank '\n' = true := by decide

theorem slice_of_mem_hits_blankLine {h : Hit} (hm : h ∈ blankLine.hits text) :
    h.span.stop ≤ text.length ∧ ∃ blanks, (∀ c ∈ blanks, isBlank c = true) ∧
      h.span.slice text = '\n' :: (blanks ++ ['\n']) := by
  obtain ⟨hstop, hslice⟩ := slice_of_mem_hits hm
  obtain ⟨blanks, _, hblanks, _, hparts⟩ := reads_blankLine_iff.1 (reads_of_mem_hits hm).2
  rw [hparts] at hslice
  exact ⟨hstop, blanks, hblanks, hslice⟩

theorem start_lt_of_mem_hits {h : Hit} (hm : h ∈ blankLine.hits text) :
    h.start < h.span.stop := by
  obtain ⟨hstop, blanks, _, hslice⟩ := slice_of_mem_hits_blankLine hm
  have hlength := Span.length_slice h.span hstop
  rw [hslice, List.length_cons, Span.length, Hit.start_span] at hlength
  omega

theorem not_visible_of_mem_hits {h : Hit} (hm : h ∈ blankLine.hits text) (hi : h.span.Covers i) :
    ¬ Visible text i := by
  rintro ⟨c, hc, hvisible⟩
  obtain ⟨_, blanks, hblanks, hslice⟩ := slice_of_mem_hits_blankLine hm
  have hmem : c ∈ '\n' :: (blanks ++ ['\n']) := hslice ▸ Span.mem_slice.2 ⟨i, hi, hc⟩
  have hblank : isBlank c = true := by
    rcases List.mem_cons.1 hmem with rfl | hmem
    · exact isBlank_lineEnd
    · rcases List.mem_append.1 hmem with hmem | hmem
      · exact hblanks c hmem
      · rw [List.mem_singleton.1 hmem]
        exact isBlank_lineEnd
  rw [hvisible] at hblank
  cases hblank

def lineEnds (text : List Char) (i j : Nat) : Nat := (Span.slice ⟨i + 1, j⟩ text).count '\n'

theorem exists_of_two_le_count {c : Char} {text : List Char} (h : 2 ≤ text.count c) :
    ∃ first second third, text = first ++ c :: (second ++ c :: third) := by
  obtain ⟨front, back, rfl, hfront, hback⟩ :=
    List.cons_sublist_iff.1 (List.replicate_sublist_iff.2 h)
  obtain ⟨first, s, rfl⟩ := List.append_of_mem hfront
  obtain ⟨t, third, rfl⟩ := List.append_of_mem (List.singleton_sublist.1 hback)
  exact ⟨first, s ++ t, third, by simp⟩

theorem breaks_hits_iff (hij : Neighbours (Visible text) i j) :
    Span.Breaks ((blankLine.hits text).map Hit.span) i j ↔ 2 ≤ lineEnds text i j := by
  constructor
  · rintro ⟨_, hb, hi, hj⟩
    obtain ⟨h, hm, rfl⟩ := List.mem_map.1 hb
    obtain ⟨_, blanks, _, hslice⟩ := slice_of_mem_hits_blankLine hm
    have hle : h.start ≤ h.span.stop := Nat.le_add_right _ _
    have hsplit : Span.slice ⟨i + 1, j⟩ text = Span.slice ⟨i + 1, h.start⟩ text ++
        (h.span.slice text ++ Span.slice ⟨h.span.stop, j⟩ text) := by
      rw [Span.slice_append hi (hle.trans hj), Span.slice_append (a := h.span.start) hle hj]
      rfl
    rw [lineEnds, hsplit, hslice]
    simp only [List.count_append, List.count_cons_self, List.count_nil]
    omega
  · intro hcount
    have hblank : ∀ c ∈ Span.slice ⟨i + 1, j⟩ text, isBlank c = true :=
      Span.blank_slice fun k hk => hij.nothing k hk.1 hk.2
    obtain ⟨first, second, third, hslice⟩ := exists_of_two_le_count hcount
    -- a blank line can be read at the first of the two line ends
    have hdrop : text.drop (i + 1 + first.length) =
        '\n' :: (second ++ '\n' :: (third ++ text.drop j)) := by
      rw [← List.drop_drop, ← Span.slice_append_drop hij.lt, hslice, List.append_assoc,
        List.drop_left, List.cons_append, List.append_assoc, List.cons_append]
    have hsecond : ∀ c ∈ second, isBlank c = true := fun c hc =>
      hblank c (hslice ▸ by simp [hc])
    have hj := hij.second.lt_length
    have hlength := Span.length_slice ⟨i + 1, j⟩ hj.le
    rw [hslice, List.length_append, List.length_cons] at hlength
    have hplace : i + 1 + first.length < j := by
      simp only [Span.length] at hlength
      omega
    obtain ⟨h, hm, hle, hlt⟩ := exists_mem_hits (hplace.trans hj)
      (reads_blankLine_iff.2 ⟨second, _, hsecond, hdrop, rfl⟩)
    have hspan := start_lt_of_mem_hits hm
    have hstart : h.span.start = h.start := rfl
    refine ⟨h.span, List.mem_map_of_mem hm, ?_, ?_⟩
    · by_contra hin
      exact not_visible_of_mem_hits hm ⟨not_lt.1 hin, by omega⟩ hij.first
    · by_contra hin
      exact not_visible_of_mem_hits hm ⟨by omega, not_le.1 hin⟩ hij.second

theorem closes_iff (hij : Neighbours (Visible text) i j) :
    (∃ r ∈ Run.ofText text, r.stop = i + 1 ∧ closes r = true) ↔ 2 ≤ lineEnds text i j := by
  constructor
  · rintro ⟨r, hr, hstop, hcloses⟩
    rw [closes, decide_eq_true_eq, Run.gap_eq_slice hr hij hstop] at hcloses
    exact hcloses
  · intro hcount
    have hgap : i + 1 < j := by
      by_contra hle
      rw [lineEnds, Span.slice, Span.length, Nat.sub_eq_zero_of_le (not_lt.1 hle)] at hcount
      cases hcount
    obtain ⟨r, hr, hstop⟩ := Run.exists_stop hij hgap
    refine ⟨r, hr, hstop, ?_⟩
    rw [closes, decide_eq_true_eq, Run.gap_eq_slice hr hij hstop]
    exact hcount

theorem parts_spans (text : List Char) :
    Parts (Visible text) (fun i j => 2 ≤ lineEnds text i j) (spans text) :=
  (Run.parts_group closes text).congr fun _ _ hij => closes_iff hij

/-- Paragraphs are what blank lines leave of a text. They hold whatever is visible, in order, and
neighbouring characters are in one paragraph unless there are two line ends between them. -/
theorem spans_part_at_blank_lines (text : List Char) :
    Parts (Visible text) (fun i j => 2 ≤ lineEnds text i j) (spans text) ∧
      spans text =
        Span.between text 0 text.length ((blankLine.hits text).map Hit.span) := by
  have hclears : Span.Clears text 0 text.length ((blankLine.hits text).map Hit.span) := by
    refine Span.clears_of_ordered ?_ (Nat.zero_le _) (fun _ _ => Nat.zero_le _) fun b hb => ?_
    · exact List.pairwise_map.2 (ordered_hits blankLine text)
    · obtain ⟨h, hm, rfl⟩ := List.mem_map.1 hb
      exact ⟨(start_lt_of_mem_hits hm).le, (slice_of_mem_hits hm).1,
        fun i => not_visible_of_mem_hits hm⟩
  refine ⟨parts_spans text, ?_⟩
  exact Span.group_eq_between closes hclears fun i j hij =>
    (breaks_hits_iff hij).trans (closes_iff hij).symm

end Retrieval.Paragraph
