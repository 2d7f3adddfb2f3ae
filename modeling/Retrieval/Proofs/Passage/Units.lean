import Mathlib.Data.List.Basic
import Retrieval.Passage.Paragraph
import Retrieval.Proofs.Passage.Visible

/-!
# Units of a text

The runs of a text hold its visible positions and no others. Whatever test joins them, they are
joined into units: spans in order that begin and end with visible positions and between them hold
all of them. Sentences and paragraphs are such units, and so are the sentences of long paragraphs
between paragraphs of moderate length.
-/

namespace Retrieval

open Text

/-- Spans in order, made to hold the positions of some kind. -/
structure Units (visible : Nat → Prop) (spans : List Span) : Prop where
  bounds : ∀ s ∈ spans, s.start < s.stop ∧ visible s.start ∧ visible (s.stop - 1)
  ordered : spans.Pairwise fun a b => a.stop ≤ b.start
  covers : ∀ i, visible i → ∃ s ∈ spans, s.Covers i

namespace Units

variable {visible : Nat → Prop} {spans : List Span}

theorem congr {other : Nat → Prop} (h : ∀ i, visible i ↔ other i) (hu : Units visible spans) :
    Units other spans := by
  rwa [← funext fun i => propext (h i)]

theorem singleton {s : Span} (hlt : s.start < s.stop) (hfirst : visible s.start)
    (hlast : visible (s.stop - 1)) : Units (fun i => s.Covers i ∧ visible i) [s] where
  bounds t ht := by
    rw [List.mem_singleton.1 ht]
    exact ⟨hlt, ⟨⟨le_rfl, hlt⟩, hfirst⟩, ⟨⟨by omega, by omega⟩, hlast⟩⟩
  ordered := List.pairwise_singleton _ _
  covers i hi := ⟨s, List.mem_singleton_self s, hi.1⟩

theorem shift (n : Nat) (hu : Units visible spans) :
    Units (fun i => n ≤ i ∧ visible (i - n)) (spans.map (Span.shift n)) where
  bounds t ht := by
    obtain ⟨s, hs, rfl⟩ := List.mem_map.1 ht
    obtain ⟨hlt, hfirst, hlast⟩ := hu.bounds s hs
    simp only [Span.shift, Nat.add_sub_cancel]
    refine ⟨by omega, ⟨by omega, hfirst⟩, by omega, ?_⟩
    rwa [show s.stop + n - 1 - n = s.stop - 1 by omega]
  ordered := by
    rw [List.pairwise_map]
    exact hu.ordered.imp fun h => Nat.add_le_add_right h n
  covers i hi := by
    obtain ⟨s, hs, h⟩ := hu.covers (i - n) hi.2
    refine ⟨s.shift n, List.mem_map_of_mem hs, ?_⟩
    simp only [Span.Covers, Span.shift] at h ⊢
    omega

/-- Units may themselves be split into units. -/
theorem flatMap {f : Span → List Span} (hu : Units visible spans)
    (hf : ∀ s ∈ spans, Units (fun i => s.Covers i ∧ visible i) (f s)) :
    Units visible (spans.flatMap f) where
  bounds t ht := by
    obtain ⟨s, hs, h⟩ := List.mem_flatMap.1 ht
    obtain ⟨hlt, hfirst, hlast⟩ := (hf s hs).bounds t h
    exact ⟨hlt, hfirst.2, hlast.2⟩
  ordered := by
    rw [List.pairwise_flatMap]
    refine ⟨fun s hs => (hf s hs).ordered, hu.ordered.imp_of_mem ?_⟩
    intro a b ha hb hab x hx y hy
    obtain ⟨hlt, _, hlast⟩ := (hf a ha).bounds x hx
    obtain ⟨_, hfirst, _⟩ := (hf b hb).bounds y hy
    have := hlast.1.2
    have := hfirst.1.1
    omega
  covers i hi := by
    obtain ⟨s, hs, h⟩ := hu.covers i hi
    obtain ⟨t, ht, hti⟩ := (hf s hs).covers i ⟨h, hi⟩
    exact ⟨t, List.mem_flatMap.2 ⟨s, hs, ht⟩, hti⟩

end Units

namespace Run

variable {position : Nat} {text : List Char}

theorem cut_cons_of_blank {c : Char} (hc : isBlank c = true) (position : Nat) (rest : List Char) :
    cut position (c :: rest) = (c :: (cut (position + 1) rest).1, (cut (position + 1) rest).2) := by
  simp [cut, hc]

theorem cut_cons_of_visible {c : Char} (hc : isBlank c = false) (position : Nat)
    (rest : List Char) :
    (∃ r later, cut (position + 1) rest = ([], r :: later) ∧
      cut position (c :: rest) =
        ([], { r with start := position, body := c :: r.body } :: later)) ∨
    cut position (c :: rest) =
      ([], ⟨position, [c], (cut (position + 1) rest).1⟩ :: (cut (position + 1) rest).2) := by
  rcases h : cut (position + 1) rest with ⟨lead, runs⟩
  cases lead with
  | cons b lead => exact Or.inr (by simp [cut, hc, h])
  | nil =>
      cases runs with
      | nil => exact Or.inr (by simp [cut, hc, h])
      | cons r later => exact Or.inl ⟨r, later, rfl, by simp [cut, hc, h]⟩

theorem start_of_cut {r : Run} {later : List Run} (h : cut position text = ([], r :: later)) :
    r.start = position := by
  cases text with
  | nil => cases h
  | cons c rest =>
      cases hc : isBlank c with
      | true =>
          rw [cut_cons_of_blank hc] at h
          cases h
      | false =>
          rcases cut_cons_of_visible hc position rest with ⟨_, _, _, he⟩ | he <;>
          · rw [he] at h
            cases h
            rfl

structure Laid (position : Nat) (text : List Char) (runs : List Run) : Prop where
  bounds : ∀ r ∈ runs, position ≤ r.start ∧ r.start < r.stop
  ordered : runs.Pairwise fun a b => a.stop ≤ b.start
  visible : ∀ i, Visible text i ↔ ∃ r ∈ runs, r.span.Covers (position + i)

namespace Laid

variable {c : Char} {rest : List Char} {runs later : List Run} {r : Run}

theorem past (h : Laid (position + 1) rest runs) (hr : r ∈ runs) {i : Nat}
    (hi : r.span.Covers i) : position < i :=
  (h.bounds r hr).1.trans hi.1

theorem blank (h : Laid (position + 1) rest runs) (hc : isBlank c = true) :
    Laid position (c :: rest) runs := by
  refine ⟨fun r hr => ⟨by have := (h.bounds r hr).1; omega, (h.bounds r hr).2⟩, h.ordered,
    fun i => ?_⟩
  cases i with
  | zero =>
      rw [visible_cons_zero, hc]
      constructor
      · rintro ⟨⟩
      · rintro ⟨r, hr, hi⟩
        exact absurd (h.past hr hi) (by omega)
  | succ i => rw [visible_cons_succ, h.visible, Nat.succ_add_eq_add_succ]

theorem extended (h : Laid (position + 1) rest (r :: later)) (hs : r.start = position + 1)
    (hc : isBlank c = false) :
    Laid position (c :: rest) ({ r with start := position, body := c :: r.body } :: later) := by
  obtain ⟨hb, ho, hv⟩ := h
  obtain ⟨hfirst, hlater⟩ := List.pairwise_cons.1 ho
  have hr := (hb r List.mem_cons_self).2
  have hstop : stop { r with start := position, body := c :: r.body } = r.stop := by
    simp only [stop, List.length_cons, hs]
    omega
  refine ⟨?_, List.pairwise_cons.2 ⟨?_, hlater⟩, fun i => ?_⟩
  · intro q hq
    rcases List.mem_cons.1 hq with rfl | hq
    · exact ⟨le_rfl, by rw [hstop]; dsimp only; omega⟩
    · have := hb q (List.mem_cons_of_mem _ hq)
      exact ⟨by omega, this.2⟩
  · intro q hq
    rw [hstop]
    exact hfirst q hq
  · rw [List.exists_mem_cons_iff]
    cases i with
    | zero =>
        rw [visible_cons_zero]
        exact iff_of_true hc (Or.inl ⟨le_rfl, by simp only [span, hstop]; omega⟩)
    | succ i =>
        rw [visible_cons_succ, hv, List.exists_mem_cons_iff, Nat.succ_add_eq_add_succ]
        refine or_congr ?_ Iff.rfl
        simp only [Span.Covers, span, hstop, hs]
        omega

theorem opened (h : Laid (position + 1) rest runs) (hc : isBlank c = false) (gap : List Char) :
    Laid position (c :: rest) (⟨position, [c], gap⟩ :: runs) := by
  have hstop : stop ⟨position, [c], gap⟩ = position + 1 := rfl
  refine ⟨?_, List.pairwise_cons.2 ⟨fun q hq => ?_, h.ordered⟩, fun i => ?_⟩
  · intro q hq
    rcases List.mem_cons.1 hq with rfl | hq
    · exact ⟨le_rfl, by rw [hstop]; dsimp only; omega⟩
    · have := h.bounds q hq
      exact ⟨by omega, this.2⟩
  · rw [hstop]
    exact (h.bounds q hq).1
  · rw [List.exists_mem_cons_iff]
    cases i with
    | zero =>
        rw [visible_cons_zero]
        exact iff_of_true hc (Or.inl ⟨le_rfl, by simp only [span, hstop]; omega⟩)
    | succ i =>
        rw [visible_cons_succ, h.visible, Nat.succ_add_eq_add_succ, or_iff_right]
        rintro ⟨_, hi⟩
        simp only [span, hstop] at hi
        omega

end Laid

theorem laid_cut (position : Nat) (text : List Char) : Laid position text (cut position text).2 := by
  induction text generalizing position with
  | nil => exact ⟨by simp [cut], by simp [cut], fun i => by simp [cut, Visible]⟩
  | cons c rest ih =>
      have h := ih (position + 1)
      cases hc : isBlank c with
      | true =>
          rw [cut_cons_of_blank hc]
          exact h.blank hc
      | false =>
          rcases cut_cons_of_visible hc position rest with ⟨r, later, he, he'⟩ | he
          · rw [he] at h
            rw [he']
            exact h.extended (start_of_cut he) hc
          · rw [he]
            exact h.opened hc _

section Group

variable {closes : Run → Bool} {runs : List Run}

theorem group_cons (closes : Run → Bool) (r : Run) (later : List Run) :
    group closes (r :: later) = r.span :: group closes later ∨
      ∃ s spans, group closes later = s :: spans ∧
        group closes (r :: later) = ⟨r.start, s.stop⟩ :: spans := by
  cases hg : group closes later with
  | nil => exact Or.inl (by simp [group, hg])
  | cons s spans =>
      cases hc : closes r with
      | true => exact Or.inl (by simp [group, hg, hc])
      | false => exact Or.inr ⟨s, spans, rfl, by simp [group, hg, hc]⟩

theorem ends_of_mem_group (ho : runs.Pairwise fun a b => a.stop ≤ b.start)
    (hb : ∀ r ∈ runs, r.start < r.stop) {s : Span} (h : s ∈ group closes runs) :
    ∃ a ∈ runs, ∃ b ∈ runs, s = ⟨a.start, b.stop⟩ ∧ a.stop ≤ b.stop := by
  induction runs generalizing s with
  | nil => cases h
  | cons r later ih =>
      obtain ⟨hr, hl⟩ := List.pairwise_cons.1 ho
      have hlater {s : Span} (hs : s ∈ group closes later) :
          ∃ a ∈ later, ∃ b ∈ later, s = ⟨a.start, b.stop⟩ ∧ a.stop ≤ b.stop :=
        ih hl (fun q hq => hb q (List.mem_cons_of_mem _ hq)) hs
      rcases group_cons closes r later with he | ⟨next, spans, hn, he⟩
      · rw [he] at h
        rcases List.mem_cons.1 h with rfl | h
        · exact ⟨r, List.mem_cons_self, r, List.mem_cons_self, rfl, le_rfl⟩
        · obtain ⟨a, ha, b, hb, he⟩ := hlater h
          exact ⟨a, List.mem_cons_of_mem _ ha, b, List.mem_cons_of_mem _ hb, he⟩
      · rw [he] at h
        rcases List.mem_cons.1 h with rfl | h
        · obtain ⟨a, _, b, hbm, rfl, _⟩ := hlater (hn ▸ List.mem_cons_self)
          have hrb := hr b hbm
          have := hb b (List.mem_cons_of_mem _ hbm)
          exact ⟨r, List.mem_cons_self, b, List.mem_cons_of_mem _ hbm, rfl, by omega⟩
        · obtain ⟨a, ha, b, hb, he⟩ := hlater (hn ▸ List.mem_cons_of_mem _ h)
          exact ⟨a, List.mem_cons_of_mem _ ha, b, List.mem_cons_of_mem _ hb, he⟩

theorem ordered_group (ho : runs.Pairwise fun a b => a.stop ≤ b.start)
    (hb : ∀ r ∈ runs, r.start < r.stop) :
    (group closes runs).Pairwise fun a b => a.stop ≤ b.start := by
  induction runs with
  | nil => exact List.Pairwise.nil
  | cons r later ih =>
      obtain ⟨hr, hl⟩ := List.pairwise_cons.1 ho
      have hbl := fun q hq => hb q (List.mem_cons_of_mem r hq)
      rcases group_cons closes r later with he | ⟨next, spans, hn, he⟩
      · rw [he]
        refine List.pairwise_cons.2 ⟨fun s hs => ?_, ih hl hbl⟩
        obtain ⟨a, ha, b, _, rfl, _⟩ := ends_of_mem_group hl hbl hs
        exact hr a ha
      · have ho' := ih hl hbl
        rw [hn] at ho'
        rw [he]
        exact List.pairwise_cons.2 (List.pairwise_cons.1 ho')

theorem exists_group_over {r : Run} (ho : runs.Pairwise fun a b => a.stop ≤ b.start)
    (hb : ∀ r ∈ runs, r.start < r.stop) (h : r ∈ runs) :
    ∃ s ∈ group closes runs, s.start ≤ r.start ∧ r.stop ≤ s.stop := by
  induction runs with
  | nil => cases h
  | cons q later ih =>
      obtain ⟨hq, hl⟩ := List.pairwise_cons.1 ho
      have hbl := fun a ha => hb a (List.mem_cons_of_mem q ha)
      rcases group_cons closes q later with he | ⟨next, spans, hn, he⟩
      · rw [he]
        rcases List.mem_cons.1 h with rfl | h
        · exact ⟨r.span, List.mem_cons_self, le_rfl, le_rfl⟩
        · obtain ⟨s, hs, hsr⟩ := ih hl hbl h
          exact ⟨s, List.mem_cons_of_mem _ hs, hsr⟩
      · have hmem : next ∈ group closes later := hn ▸ List.mem_cons_self
        obtain ⟨a, _, b, hbm, hnext, _⟩ := ends_of_mem_group hl hbl hmem
        rw [he]
        rcases List.mem_cons.1 h with rfl | h
        · have := hq b hbm
          have := hbl b hbm
          refine ⟨_, List.mem_cons_self, le_rfl, ?_⟩
          rw [hnext]
          dsimp only
          omega
        · obtain ⟨s, hs, hsr⟩ := ih hl hbl h
          rw [hn] at hs
          rcases List.mem_cons.1 hs with rfl | hs
          · have := hq r h
            have := hb q List.mem_cons_self
            exact ⟨_, List.mem_cons_self, by dsimp only; omega, hsr.2⟩
          · exact ⟨s, List.mem_cons_of_mem _ hs, hsr⟩

end Group

/-- However runs are joined, they make units of the text. -/
theorem units_group (closes : Run → Bool) (text : List Char) :
    Units (Visible text) (group closes (ofText text)) := by
  obtain ⟨hb, ho, hv⟩ := laid_cut 0 text
  have hbounds : ∀ r ∈ ofText text, r.start < r.stop := fun r hr => (hb r hr).2
  have hcover (i : Nat) : Visible text i ↔ ∃ r ∈ ofText text, r.span.Covers i := by
    rw [hv, Nat.zero_add]
    rfl
  refine ⟨fun s hs => ?_, ordered_group ho hbounds, fun i hi => ?_⟩
  · obtain ⟨a, ha, b, hbm, rfl, hab⟩ := ends_of_mem_group ho hbounds hs
    have hla := hbounds a ha
    have hlb := hbounds b hbm
    exact ⟨hla.trans_le hab, (hcover _).2 ⟨a, ha, le_rfl, hla⟩,
      (hcover _).2 ⟨b, hbm, by simp only [span]; omega, by simp only [span]; omega⟩⟩
  · obtain ⟨r, hr, hri⟩ := (hcover i).1 hi
    obtain ⟨s, hs, hsr⟩ : ∃ s ∈ group closes (ofText text), s.start ≤ r.start ∧ r.stop ≤ s.stop :=
      exists_group_over ho hbounds hr
    exact ⟨s, hs, hsr.1.trans hri.1, hri.2.trans_le hsr.2⟩

end Run

namespace Sentence

theorem isBlank_masked {c : Char} (h : c = '.') : isBlank maskChar = isBlank c := by
  subst h
  decide

/-- A masked full stop is as visible as the full stop was. -/
theorem visible_maskFrom (abbreviation before text : List Char) (i : Nat) :
    Visible (maskFrom abbreviation before text) i ↔ Visible text i := by
  induction text generalizing before i with
  | nil => rfl
  | cons c rest ih =>
      rw [maskFrom]
      cases i with
      | zero =>
          rw [visible_cons_zero, visible_cons_zero]
          split
          · next h =>
              simp only [Bool.and_eq_true, beq_iff_eq] at h
              rw [isBlank_masked h.1]
          · rfl
      | succ i => rw [visible_cons_succ, visible_cons_succ, ih]

theorem visible_mask (order : List (List Char)) (text : List Char) (i : Nat) :
    Visible (mask order text) i ↔ Visible text i := by
  induction order generalizing text with
  | nil => rfl
  | cons a order ih =>
      rw [mask, List.foldl_cons]
      exact (ih _).trans (visible_maskFrom a [] text i)

theorem units_spansBy (order : List (List Char)) (text : List Char) :
    Units (Visible text) (spansBy order text) :=
  (Run.units_group closes _).congr (visible_mask order text)

theorem units_spansWithin (masking : Masking) (range : Span) (text : List Char) :
    Units (fun i => range.Covers i ∧ Visible text i) (spansWithin masking range text) := by
  refine ((units_spansBy masking.order (range.slice text)).shift range.start).congr fun i => ?_
  constructor
  · rintro ⟨hi, h⟩
    rw [Span.visible_slice, Nat.add_sub_cancel' hi] at h
    exact h
  · rintro ⟨hi, h⟩
    refine ⟨hi.1, ?_⟩
    rw [Span.visible_slice, Nat.add_sub_cancel' hi.1]
    exact ⟨hi, h⟩

end Sentence

namespace Paragraph

theorem units_spans (text : List Char) : Units (Visible text) (spans text) :=
  Run.units_group closes text

theorem units_units (masking : Sentence.Masking) (budget : Nat) (text : List Char) :
    Units (Visible text) (units masking budget text) := by
  refine (units_spans text).flatMap fun s hs => ?_
  split
  · exact Sentence.units_spansWithin masking s text
  · obtain ⟨hlt, hfirst, hlast⟩ := (units_spans text).bounds s hs
    exact Units.singleton hlt hfirst hlast

end Paragraph

end Retrieval
