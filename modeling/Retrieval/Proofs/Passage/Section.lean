import Retrieval.Passage.Section
import Retrieval.Proofs.Passage.Tracing

/-!
# Sections tile the text

From the first heading on, each section begins where the one before it ends, and every section shows
the number sign of a heading or some text. Joining neighbours keeps both.
-/

namespace Retrieval

open Text

variable {text : List Char}

namespace Heading

theorem eq_of_opening? {c : Char} {rest : List Char} {h : Heading}
    (ho : opening? (c :: rest) = some h) : c = '#' := by
  by_contra hc
  have hsigns : (c :: rest).takeWhile (· == '#') = [] := by
    rw [List.takeWhile_cons, if_neg (by simpa using hc)]
  rw [opening?, hsigns] at ho
  cases ho

theorem scan_cons (skip position : Nat) (opens : Bool) (c : Char) (rest : List Char) :
    (∃ skip', scan skip position opens (c :: rest) = scan skip' (position + 1) (c == '\n') rest) ∨
    ∃ h skip', c = '#' ∧ scan skip position opens (c :: rest) =
      (position, h) :: scan skip' (position + 1) (c == '\n') rest := by
  cases skip with
  | succ skip => exact Or.inl ⟨skip, rfl⟩
  | zero =>
      rw [scan]
      cases ho : (if opens then opening? (c :: rest) else none) with
      | none => exact Or.inl ⟨0, rfl⟩
      | some h =>
          refine Or.inr ⟨h, h.length - 1, ?_, rfl⟩
          split at ho
          · exact eq_of_opening? ho
          · cases ho

theorem sign_of_mem_scan {skip position : Nat} {opens : Bool} {p : Nat × Heading}
    (hp : p ∈ scan skip position opens text) :
    position ≤ p.1 ∧ text[p.1 - position]? = some '#' := by
  induction text generalizing skip position opens with
  | nil => simp [scan] at hp
  | cons c rest ih =>
      have hlater {skip' : Nat} (h : p ∈ scan skip' (position + 1) (c == '\n') rest) :
          position ≤ p.1 ∧ (c :: rest)[p.1 - position]? = some '#' := by
        obtain ⟨hle, hsign⟩ := ih h
        refine ⟨by omega, ?_⟩
        rwa [show p.1 - position = p.1 - (position + 1) + 1 by omega, List.getElem?_cons_succ]
      rcases scan_cons skip position opens c rest with ⟨_, he⟩ | ⟨h, _, rfl, he⟩
      · exact hlater (he ▸ hp)
      · rcases List.mem_cons.1 (he ▸ hp) with rfl | hp
        · simp
        · exact hlater hp

theorem pairwise_scan (skip position : Nat) (opens : Bool) (text : List Char) :
    (scan skip position opens text).Pairwise fun a b => a.1 < b.1 := by
  induction text generalizing skip position opens with
  | nil => simp [scan]
  | cons c rest ih =>
      rcases scan_cons skip position opens c rest with ⟨_, he⟩ | ⟨h, _, _, he⟩
      · rw [he]
        exact ih _ _ _
      · rw [he]
        refine List.pairwise_cons.2 ⟨fun p hp => ?_, ih _ _ _⟩
        exact (sign_of_mem_scan hp).1

theorem visible_of_mem_all {p : Nat × Heading} (hp : p ∈ all text) : Visible text p.1 := by
  obtain ⟨_, hsign⟩ := sign_of_mem_scan hp
  exact ⟨'#', hsign, by decide⟩

end Heading

namespace Section

/-- The sections cover `a` up to `b` without gaps, each with something visible in it. -/
def Tiles (text : List Char) : Nat → List Section → Nat → Prop
  | a, [], b => a = b
  | a, s :: later, b => s.span.start = a ∧ (∃ i, s.span.Covers i ∧ Visible text i) ∧
      Tiles text s.span.stop later b

namespace Tiles

variable {a b : Nat} {sections : List Section}

theorem bounds (h : Tiles text a sections b) : a ≤ b ∧
    ∀ s ∈ sections, a ≤ s.span.start ∧ s.span.start < s.span.stop ∧ s.span.stop ≤ b := by
  induction sections generalizing a with
  | nil => exact ⟨h.le, fun _ hs => nomatch hs⟩
  | cons s later ih =>
      obtain ⟨rfl, ⟨i, hi, _⟩, hlater⟩ := h
      obtain ⟨hle, hbounds⟩ := ih hlater
      have hlt : s.span.start < s.span.stop := hi.1.trans_lt hi.2
      refine ⟨hlt.le.trans hle, fun t ht => ?_⟩
      rcases List.mem_cons.1 ht with rfl | ht
      · exact ⟨le_rfl, hlt, hle⟩
      · obtain ⟨h1, h2, h3⟩ := hbounds t ht
        exact ⟨hlt.le.trans h1, h2, h3⟩

theorem ordered (h : Tiles text a sections b) :
    sections.Pairwise fun s t => s.span.stop ≤ t.span.start := by
  induction sections generalizing a with
  | nil => exact .nil
  | cons s later ih =>
      obtain ⟨_, _, hlater⟩ := h
      exact List.pairwise_cons.2 ⟨fun t ht => (hlater.bounds.2 t ht).1, ih hlater⟩

theorem visible (h : Tiles text a sections b) :
    ∀ s ∈ sections, ∃ i, s.span.Covers i ∧ Visible text i := by
  induction sections generalizing a with
  | nil => exact fun _ hs => nomatch hs
  | cons s later ih =>
      obtain ⟨_, hvis, hlater⟩ := h
      exact List.forall_mem_cons.2 ⟨hvis, ih hlater⟩

theorem covers (h : Tiles text a sections b) {i : Nat} (ha : a ≤ i) (hb : i < b) :
    ∃ s ∈ sections, s.span.Covers i := by
  induction sections generalizing a with
  | nil => exact absurd hb (by rw [← (h : a = b)]; omega)
  | cons s later ih =>
      obtain ⟨rfl, _, hlater⟩ := h
      by_cases hi : i < s.span.stop
      · exact ⟨s, List.mem_cons_self, ha, hi⟩
      · obtain ⟨t, ht, hti⟩ := ih hlater (by omega)
        exact ⟨t, List.mem_cons_of_mem s ht, hti⟩

end Tiles

theorem tiles_ofHeadings {first : Nat × Heading} {later : List (Nat × Heading)}
    (hv : ∀ p ∈ first :: later, Visible text p.1)
    (ho : (first :: later).Pairwise fun a b => a.1 < b.1) :
    Tiles text first.1 (ofHeadings text.length (first :: later)) text.length := by
  induction later generalizing first with
  | nil =>
      have hfirst := hv first List.mem_cons_self
      exact ⟨rfl, ⟨first.1, ⟨le_rfl, hfirst.lt_length⟩, hfirst⟩, rfl⟩
  | cons next later ih =>
      obtain ⟨hlt, ho⟩ := List.pairwise_cons.1 ho
      refine ⟨rfl,
        ⟨first.1, ⟨le_rfl, hlt next List.mem_cons_self⟩, hv first List.mem_cons_self⟩, ?_⟩
      exact ih (fun p hp => hv p (List.mem_cons_of_mem first hp)) ho

/-- A text without headings has no sections; in any other the sections begin behind blanks. -/
theorem tiles_ofText (text : List Char) : ofText text = [] ∨
    ∃ a, Tiles text a (ofText text) text.length ∧ ∀ i, i < a → ¬ Visible text i := by
  have hv : ∀ p ∈ Heading.all text, Visible text p.1 := fun p => Heading.visible_of_mem_all
  have ho : (Heading.all text).Pairwise fun a b => a.1 < b.1 := Heading.pairwise_scan 0 0 true text
  rw [ofText]
  cases hall : Heading.all text with
  | nil => exact Or.inl rfl
  | cons first later =>
      rw [hall] at hv ho
      have htiles := tiles_ofHeadings hv ho
      have hlead : text.take first.1 = Span.slice ⟨0, first.1⟩ text := rfl
      dsimp only
      rw [hlead]
      split
      · next hblank =>
        refine Or.inr ⟨first.1, htiles, fun i hi => ?_⟩
        exact Span.trim_slice_eq_nil_iff.1 (List.isEmpty_iff.1 hblank) i ⟨Nat.zero_le i, hi⟩
      · next hshown =>
        refine Or.inr ⟨0, ⟨rfl, ?_, htiles⟩, fun i hi => absurd hi (Nat.not_lt_zero i)⟩
        by_contra hnone
        refine hshown (List.isEmpty_iff.2 (Span.trim_slice_eq_nil_iff.2 fun i hi hvis => ?_))
        exact hnone ⟨i, hi, hvis⟩

theorem tiles_gatherInto (budget : Nat) {current : Section} {later : List Section} {a b : Nat}
    (h : Tiles text a (current :: later) b) :
    Tiles text a (gatherInto budget current later) b := by
  induction later generalizing a current with
  | nil => exact h
  | cons next later ih =>
      obtain ⟨hstart, ⟨i, hi, hvis⟩, hnext, ⟨j, hj, hvis'⟩, hlater⟩ := h
      rw [gatherInto]
      split
      · refine ih ⟨hstart, ⟨i, ⟨hi.1, ?_⟩, hvis⟩, hlater⟩
        have := hj.1
        have := hj.2
        have := hi.2
        dsimp only
        omega
      · exact ⟨hstart, ⟨i, hi, hvis⟩, ih ⟨hnext, ⟨j, hj, hvis'⟩, hlater⟩⟩

theorem Tiles.gather {a b : Nat} {sections : List Section} (h : Tiles text a sections b)
    (budget : Nat) : Tiles text a (gather budget sections) b := by
  cases sections with
  | nil => exact h
  | cons first later => exact tiles_gatherInto budget h

theorem Tiles.traces {a : Nat} {sections : List Section} (h : Tiles text a sections text.length)
    (hblank : ∀ i, i < a → ¬ Visible text i) :
    Traces text (sections.map fun s => (s.span, trim (s.span.slice text))) := by
  refine ⟨?_, ?_, ?_, ?_, fun i hi => ?_⟩
  · intro p hp
    obtain ⟨s, hs, rfl⟩ := List.mem_map.1 hp
    exact (h.bounds.2 s hs).2
  · intro p hp
    obtain ⟨s, hs, rfl⟩ := List.mem_map.1 hp
    refine ⟨fun hnil => ?_, rfl⟩
    obtain ⟨i, hi, hvis⟩ := h.visible s hs
    exact Span.trim_slice_eq_nil_iff.1 hnil i hi hvis
  · refine List.pairwise_map.2 (h.ordered.imp_of_mem fun {s t} hs _ hst => ?_)
    exact (h.bounds.2 s hs).2.1.trans_le hst
  · refine List.pairwise_map.2 (h.ordered.imp_of_mem fun {s t} _ ht hst => ?_)
    exact hst.trans (h.bounds.2 t ht).2.1.le
  · have ha : a ≤ i := by
      by_contra hlt
      exact hblank i (by omega) hi
    obtain ⟨s, hs, hsi⟩ := h.covers ha hi.lt_length
    exact ⟨_, List.mem_map_of_mem hs, hsi⟩

end Section

end Retrieval
