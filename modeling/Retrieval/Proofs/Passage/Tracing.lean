import Retrieval.Proofs.Passage.Packing

/-!
# Tracing pieces back to the text

What every strategy owes: each piece is found again in the text at its span, the spans move forward
at both ends, and no visible position is left out.
-/

namespace Retrieval

open Text

/-- Pieces of a text, each given by its span and its body. -/
structure Traces (text : List Char) (pieces : List (Span × List Char)) : Prop where
  bounds : ∀ p ∈ pieces, p.1.start < p.1.stop ∧ p.1.stop ≤ text.length
  bodies : ∀ p ∈ pieces, p.2 ≠ [] ∧ p.2 = trim (p.1.slice text)
  starts : pieces.Pairwise fun p q => p.1.start < q.1.start
  stops : pieces.Pairwise fun p q => p.1.stop ≤ q.1.stop
  covers : ∀ i, Visible text i → ∃ p ∈ pieces, p.1.Covers i

namespace Traces

variable {text : List Char} {pieces : List (Span × List Char)}

/-- Nothing is cut from a blank text, and something from every other. -/
theorem eq_nil_iff (h : Traces text pieces) :
    pieces = [] ↔ ∀ c ∈ text, isBlank c = true := by
  constructor
  · intro he c hc
    obtain ⟨i, hi⟩ := List.mem_iff_getElem?.1 hc
    by_contra hb
    obtain ⟨p, hp, _⟩ := h.covers i ⟨c, hi, by simpa using hb⟩
    rw [he] at hp
    cases hp
  · intro hblank
    cases pieces with
    | nil => rfl
    | cons p later =>
        obtain ⟨hne, hbody⟩ := h.bodies p List.mem_cons_self
        refine absurd (hbody.trans (trim_eq_nil_of_blank fun c hc => ?_)) hne
        exact hblank c (List.mem_of_mem_drop (List.mem_of_mem_take hc))

theorem nil (h : ∀ i, ¬ Visible text i) : Traces text [] where
  bounds _ hp := nomatch hp
  bodies _ hp := nomatch hp
  starts := .nil
  stops := .nil
  covers i hi := absurd hi (h i)

theorem extend_first {p : Span × List Char} (h : Traces text (p :: pieces)) :
    Traces text ((⟨0, p.1.stop⟩, p.2) :: pieces) := by
  obtain ⟨⟨hlt, hle⟩, hbounds⟩ := List.forall_mem_cons.1 h.bounds
  obtain ⟨⟨hne, hbody⟩, hbodies⟩ := List.forall_mem_cons.1 h.bodies
  obtain ⟨hfirst, hstarts⟩ := List.pairwise_cons.1 h.starts
  have hblank (i : Nat) (hi : i < p.1.start) : ¬ Visible text i := by
    intro hvis
    obtain ⟨q, hq, hqi⟩ := h.covers i hvis
    have hqs := hqi.1
    rcases List.mem_cons.1 hq with rfl | hq
    · omega
    · have := hfirst q hq
      omega
  have hsame : trim (Span.slice ⟨0, p.1.stop⟩ text) = trim (p.1.slice text) := by
    refine Span.trim_slice_of_visible_in (Nat.zero_le _) hlt.le le_rfl fun i hi hvis => ⟨?_, hi.2⟩
    by_contra hearly
    exact hblank i (by omega) hvis
  refine ⟨List.forall_mem_cons.2 ⟨⟨(Nat.zero_le _).trans_lt hlt, hle⟩, hbounds⟩,
    List.forall_mem_cons.2 ⟨⟨hne, hbody.trans hsame.symm⟩, hbodies⟩,
    List.pairwise_cons.2 ⟨fun q hq => (Nat.zero_le _).trans_lt (hfirst q hq), hstarts⟩,
    List.pairwise_cons.2 (List.pairwise_cons.1 h.stops), fun i hi => ?_⟩
  obtain ⟨q, hq, hqi⟩ := h.covers i hi
  rcases List.mem_cons.1 hq with rfl | hq
  · exact ⟨_, List.mem_cons_self, Nat.zero_le _, hqi.2⟩
  · exact ⟨q, List.mem_cons_of_mem _ hq, hqi⟩

/-- Ranges packed from units begin and end with visible positions, so nothing is trimmed. -/
theorem of_packed {spans ranges : List Span} (hu : Units (Visible text) spans)
    (hp : Packing.Packed spans ranges) : Traces text (ranges.map fun r => (r, r.slice text)) := by
  have hends : ∀ r ∈ ranges,
      r.start < r.stop ∧ Visible text r.start ∧ Visible text (r.stop - 1) := by
    intro r hr
    obtain ⟨a, ha, b, hb, rfl, hab⟩ := hp.ends r hr
    have := (hu.bounds a ha).1
    exact ⟨by dsimp only; omega, (hu.bounds a ha).2.1, (hu.bounds b hb).2.2⟩
  refine ⟨?_, ?_, ?_, ?_, fun i hi => ?_⟩
  · intro p hmem
    obtain ⟨r, hr, rfl⟩ := List.mem_map.1 hmem
    obtain ⟨hlt, _, hlast⟩ := hends r hr
    have := hlast.lt_length
    exact ⟨hlt, by dsimp only; omega⟩
  · intro p hmem
    obtain ⟨r, hr, rfl⟩ := List.mem_map.1 hmem
    obtain ⟨hlt, hfirst, hlast⟩ := hends r hr
    have htrim := Span.trim_slice_eq_self hlt hfirst hlast
    refine ⟨fun he => ?_, htrim.symm⟩
    have hnil : trim (r.slice text) = [] := htrim.trans he
    exact Span.trim_slice_eq_nil_iff.1 hnil r.start ⟨le_rfl, hlt⟩ hfirst
  · exact List.pairwise_map.2 hp.starts
  · exact List.pairwise_map.2 (hp.stops.imp fun h => h.le)
  · obtain ⟨s, hs, hsi⟩ := hu.covers i hi
    obtain ⟨r, hr, hrs⟩ := hp.whole s hs
    exact ⟨_, List.mem_map_of_mem hr, hrs.1.trans hsi.1, hsi.2.trans_le hrs.2⟩

end Traces

end Retrieval
