import Mathlib.Data.List.Rotate
import Retrieval.Proofs.Passage.Between
import Retrieval.Proofs.Passage.Masking
import Retrieval.Proofs.Text.Pattern

/-!
# Where sentences end

Two neighbouring characters are in different sentences exactly if there are blanks between them and
the first is a terminator that is not masked. So a sentence is followed by another only behind such
a terminator, and a terminator before blanks inside a sentence is a masked one, the full stop of an
abbreviation. The order in which abbreviations are masked shows in the sentences only behind
`i.e.g.`.
-/

namespace Retrieval.Sentence

open Text Pattern

variable {order o₁ o₂ : List (List Char)} {text : List Char} {range : Span} {i j : Nat}

theorem visible_of_isTerminator {c : Char} (h : text[i]? = some c) (hc : isTerminator c = true) :
    Visible text i := by
  refine ⟨c, h, ?_⟩
  simp only [isTerminator, Bool.or_eq_true, beq_iff_eq] at hc
  rcases hc with (rfl | rfl) | rfl <;> decide

theorem visible_of_terminates (h : text[i]?.any isTerminator = true) : Visible text i := by
  obtain ⟨c, hc, hterminator⟩ := (Option.any_eq_true _ _).1 h
  exact visible_of_isTerminator hc hterminator

theorem closes_iff (hij : Neighbours (Visible text) i j) :
    (∃ r ∈ Run.ofText text, r.stop = i + 1 ∧ closes r = true) ↔
      i + 1 < j ∧ text[i]?.any isTerminator = true := by
  have hcloses {r : Run} (hr : r ∈ Run.ofText text) (hstop : r.stop = i + 1) :
      closes r = text[i]?.any isTerminator := by
    rw [closes, Run.getLast?_body hr, hstop, Nat.add_sub_cancel]
  constructor
  · rintro ⟨r, hr, hstop, h⟩
    exact ⟨(Run.exists_stop_iff hij).1 ⟨r, hr, hstop⟩, hcloses hr hstop ▸ h⟩
  · rintro ⟨hgap, h⟩
    obtain ⟨r, hr, hstop⟩ := Run.exists_stop hij hgap
    exact ⟨r, hr, hstop, (hcloses hr hstop).trans h⟩

/-- Sentences part behind the terminators that masking leaves, where blanks follow. -/
theorem parts_spansBy (order : List (List Char)) (text : List Char) :
    Parts (Visible text)
      (fun i j => i + 1 < j ∧ (mask order text)[i]?.any isTerminator = true)
      (spansBy order text) :=
  ((Run.parts_group closes (mask order text)).congr fun _ _ hij => closes_iff hij).of_iff
    (visible_mask order text)

section Search

variable {before ahead : List Char} {parts : List (List Char)}

def sentenceEnd : Pattern :=
  [.take isTerminator 1 none, .look fun _ ahead => ahead.head?.all isBlank]

theorem reads_sentenceEnd_iff : Reads sentenceEnd before ahead parts ↔
    ∃ taken rest, ahead = taken ++ rest ∧ parts = [taken] ∧ taken ≠ [] ∧
      (∀ c ∈ taken, isTerminator c = true) ∧ rest.head?.all isBlank = true := by
  constructor
  · intro h
    obtain ⟨taken, rest, _, rfl, rfl, hkind, hleast, _, h⟩ := reads_take_iff.1 h
    obtain ⟨hahead, h⟩ := reads_look_iff.1 h
    obtain rfl := reads_nil_iff.1 h
    exact ⟨taken, rest, rfl, rfl, List.ne_nil_of_length_pos hleast, hkind, hahead⟩
  · rintro ⟨taken, rest, rfl, rfl, hne, hkind, hahead⟩
    exact .take hkind (List.length_pos_of_ne_nil hne) (fun _ hn => nomatch hn) (.look hahead .done)

theorem facts_of_mem_hits {h : Hit} (hm : h ∈ sentenceEnd.hits text) :
    h.start < h.span.stop ∧ (∀ k, h.span.Covers k → text[k]?.any isTerminator = true) ∧
      ¬ Visible text h.span.stop := by
  obtain ⟨hstop, hslice⟩ := slice_of_mem_hits hm
  obtain ⟨taken, rest, hdrop, hparts, hne, hkind, hahead⟩ :=
    reads_sentenceEnd_iff.1 (reads_of_mem_hits hm).2
  have hflatten : h.parts.flatten = taken := by rw [hparts, List.flatten_singleton]
  have hlength : h.span.stop = h.start + taken.length := by rw [Hit.span, hflatten]
  have := List.length_pos_of_ne_nil hne
  refine ⟨by omega, fun k hk => ?_, ?_⟩
  · have hlt := hk.2.trans_le hstop
    rw [List.getElem?_eq_getElem hlt, Option.any_some]
    refine hkind _ ?_
    rw [← hflatten, ← hslice]
    exact Span.mem_slice.2 ⟨k, hk, List.getElem?_eq_getElem hlt⟩
  · rw [Span.visible_iff_not_all, not_not, hlength, ← List.getElem?_drop, hdrop,
      List.getElem?_append_right le_rfl, Nat.sub_self, ← List.head?_eq_getElem?]
    exact hahead

theorem exists_mem_hits_iff (hij : Neighbours (Visible text) i j) :
    (∃ h ∈ sentenceEnd.hits text, i < h.span.stop ∧ h.span.stop ≤ j) ↔
      i + 1 < j ∧ text[i]?.any isTerminator = true := by
  constructor
  · rintro ⟨h, hm, hi, hj⟩
    obtain ⟨hlt, hkind, hend⟩ := facts_of_mem_hits hm
    have hlast := hkind (h.span.stop - 1) ⟨by rw [Hit.start_span]; omega, by omega⟩
    have hfirst := hij.eq_first (visible_of_terminates hlast) (by omega) (by omega)
    have hne : h.span.stop ≠ j := fun hstop => hend (hstop ▸ hij.second)
    exact ⟨by omega, hfirst ▸ hlast⟩
  · rintro ⟨hgap, hterminator⟩
    obtain ⟨c, hc, hkind⟩ := (Option.any_eq_true _ _).1 hterminator
    obtain ⟨hi, rfl⟩ := List.getElem?_eq_some_iff.1 hc
    have hnext : ¬ Visible text (i + 1) := hij.nothing (i + 1) (Nat.lt_succ_self i) hgap
    have hreads : Reads sentenceEnd (text.take i).reverse (text.drop i) [[text[i]]] := by
      refine reads_sentenceEnd_iff.2 ⟨[text[i]], text.drop (i + 1), ?_, rfl, ?_, ?_, ?_⟩
      · rw [List.drop_eq_getElem_cons hi, List.singleton_append]
      · exact List.cons_ne_nil _ _
      · exact List.forall_mem_singleton.2 hkind
      · rw [List.head?_drop]
        exact not_not.1 (mt Span.visible_iff_not_all.2 hnext)
    obtain ⟨h, hm, hle, hplace⟩ := exists_mem_hits hi hreads
    obtain ⟨hlt, hkinds, _⟩ := facts_of_mem_hits hm
    have hstop : i < h.span.stop := by omega
    refine ⟨h, hm, hstop, ?_⟩
    by_contra hbehind
    exact hnext (visible_of_terminates (hkinds (i + 1) ⟨by rw [Hit.start_span]; omega, by omega⟩))

end Search

/-- The sentences of a text are what lies between the hits of a search on the masked text. -/
theorem spansBy_eq_between (order : List (List Char)) (text : List Char) :
    spansBy order text = Span.between text 0 text.length
      (Span.cuts ((sentenceEnd.hits (mask order text)).map fun h => h.span.stop)) := by
  refine Span.eq_between_of_parts ?_ (fun p hp => ?_) (Nat.zero_le _)
    (((parts_spansBy order text).of_iff fun _ => Span.shows_whole.symm).congr fun i j hij => ?_)
  · refine List.pairwise_map.2 ((ordered_hits sentenceEnd _).imp_of_mem fun {a b} _ hm h => ?_)
    exact h.trans_lt (facts_of_mem_hits hm).1
  · obtain ⟨h, hm, rfl⟩ := List.mem_map.1 hp
    have hstop := (slice_of_mem_hits hm).1
    rw [length_mask] at hstop
    exact ⟨Nat.zero_le _, hstop⟩
  · rw [← exists_mem_hits_iff (hij.of_iff fun k => Span.shows_whole.trans
      (visible_mask order text k).symm)]
    simp only [List.mem_map, exists_exists_and_eq_and]

theorem stop_of_masked (hperm : order.Perm abbreviations) (h : Masked order text i) :
    text[i]? = some '.' := by
  obtain ⟨⟨_, _, hstop, _⟩, _⟩ := (masked_iff hperm).1 h
  exact hstop

theorem isTerminator_mask (hperm : order.Perm abbreviations) :
    (mask order text)[i]?.any isTerminator = true ↔
      text[i]?.any isTerminator = true ∧ ¬ Masked order text i := by
  rw [getElem?_mask_of_perm hperm]
  split
  · next hmasked =>
    exact iff_of_false (by decide) fun h => h.2 hmasked
  · next hkept => exact (and_iff_left hkept).symm

/-- Behind `i.e.g.` a sentence may end exactly if `i.e` is masked before `e.g`. -/
theorem isTerminator_mask_of_runTogether (hperm : order.Perm abbreviations)
    (h : Abbreviates text runTogether i) :
    (mask order text)[i]?.any isTerminator = true ↔ [thatIs, forExample].Sublist order := by
  have hstop : text[i]?.any isTerminator = true := by
    rw [h.1]
    decide
  have hword : ∃ a ∈ abbreviations, Abbreviates text a i :=
    ⟨forExample, forExample_mem, (abbreviates_runTogether_iff.1 h).1⟩
  rw [isTerminator_mask hperm, and_iff_right hstop, masked_iff hperm, and_iff_right hword, not_not,
    and_iff_left h]

/-- Elsewhere the order does not matter. -/
theorem isTerminator_mask_congr (h₁ : o₁.Perm abbreviations) (h₂ : o₂.Perm abbreviations)
    (h : ([thatIs, forExample].Sublist o₁ ↔ [thatIs, forExample].Sublist o₂) ∨
      ¬ Abbreviates text runTogether i) :
    (mask o₁ text)[i]?.any isTerminator = true ↔ (mask o₂ text)[i]?.any isTerminator = true := by
  rw [isTerminator_mask h₁, isTerminator_mask h₂, masked_iff h₁, masked_iff h₂]
  rcases h with h | h
  · rw [h]
  · simp only [h, and_false]

/-- Two orders of the abbreviations give the same sentences exactly if they agree on which of `i.e`
and `e.g` is masked first, or no `i.e.g.` has blanks behind it and then more text. -/
theorem spansBy_eq_iff (h₁ : o₁.Perm abbreviations) (h₂ : o₂.Perm abbreviations)
    (text : List Char) :
    spansBy o₁ text = spansBy o₂ text ↔
      ([thatIs, forExample].Sublist o₁ ↔ [thatIs, forExample].Sublist o₂) ∨
        ∀ i j, Abbreviates text runTogether i → Neighbours (Visible text) i j → j = i + 1 := by
  have hparts₁ := parts_spansBy o₁ text
  have hparts₂ := parts_spansBy o₂ text
  constructor
  · intro heq
    by_contra hne
    obtain ⟨hne, hall⟩ := not_or.1 hne
    refine hall fun i j htogether hij => ?_
    by_contra hgap
    have hgap : i + 1 < j := by
      have := hij.lt
      omega
    have hbreaks := (hparts₁.together i j hij).symm.trans (heq ▸ hparts₂.together i j hij)
    rw [not_iff_not, and_iff_right hgap, and_iff_right hgap,
      isTerminator_mask_of_runTogether h₁ htogether,
      isTerminator_mask_of_runTogether h₂ htogether] at hbreaks
    exact hne hbreaks
  · intro h
    refine hparts₁.unique (hparts₂.congr fun i j hij => and_congr_right fun hgap => ?_)
    refine isTerminator_mask_congr h₂ h₁ (h.imp Iff.symm fun hall htogether => ?_)
    exact absurd (hall i j htogether hij) (by omega)

theorem spansBy_rotated : (abbreviations.rotate 5).Perm abbreviations ∧
    spansBy (abbreviations.rotate 5) "i.e.g. Foo".toList =
      spansBy abbreviations "i.e.g. Foo".toList :=
  ⟨List.rotate_perm abbreviations 5,
    (spansBy_eq_iff (List.rotate_perm abbreviations 5) (List.Perm.refl abbreviations) _).2
      (Or.inl (by decide))⟩

/-- The last full stop of `i.e.g.` belongs to the listed `e.g`, and still ends a sentence in one
order. -/
theorem spansBy_reversed : abbreviations.reverse.Perm abbreviations ∧
    spansBy abbreviations "i.e.g. Foo".toList = [⟨0, 6⟩, ⟨7, 10⟩] ∧
    spansBy abbreviations.reverse "i.e.g. Foo".toList = [⟨0, 10⟩] :=
  ⟨List.reverse_perm abbreviations, by decide +kernel, by decide +kernel⟩

def spansOf (order : List (List Char)) (range : Span) (text : List Char) : List Span :=
  (spansBy order (range.slice text)).map (Span.shift range.start)

theorem parts_spansOf (order : List (List Char)) (range : Span) (text : List Char) :
    Parts (fun i => range.Covers i ∧ Visible text i)
      (fun i j => i + 1 < j ∧
        (mask order (range.slice text))[i - range.start]?.any isTerminator = true)
      (spansOf order range text) := by
  refine (parts_spansBy order (range.slice text)).of_slice.congr fun i j hij => ?_
  have := hij.first.1.1
  have := hij.second.1.1
  refine and_congr_left fun _ => ?_
  omega

/-- What a sentence of a range is like that another one follows. -/
structure Precedes (range : Span) (text : List Char) (s next : Span) : Prop where
  gap : s.stop < next.start
  blank : ∀ i, s.stop ≤ i → i < next.start → ¬ Visible text i
  ended : ∃ c, text[s.stop - 1]? = some c ∧ isTerminator c = true
  unabbreviated : ∀ a ∈ abbreviations, '.' ∉ a →
    ¬ Abbreviates (range.slice text) a (s.stop - 1 - range.start)

/-- Sentences of a range: they hold all that is visible in it, end where they may end, and end
wherever they must. -/
structure Divides (range : Span) (text : List Char) (spans : List Span) : Prop where
  units : Units (fun i => range.Covers i ∧ Visible text i) spans
  precedes : spans.IsChain (Precedes range text)
  inner : ∀ s ∈ spans, ∀ i c, s.start ≤ i → i + 1 < s.stop → text[i]? = some c →
    isTerminator c = true → ¬ Visible text (i + 1) →
      c = '.' ∧ ∃ a ∈ abbreviations, Abbreviates (range.slice text) a (i - range.start)

theorem masked_of_abbreviates (hperm : order.Perm abbreviations) {a : List Char}
    (ha : a ∈ abbreviations) (hinner : '.' ∉ a) (h : Abbreviates text a i) :
    Masked order text i := by
  refine (masked_iff hperm).2 ⟨⟨a, ha, h⟩, ?_⟩
  rintro ⟨_, htogether⟩
  obtain rfl := eq_of_abbreviates ha forExample_mem h (abbreviates_runTogether_iff.1 htogether).1
  exact hinner (by decide)

theorem divides_spansOf (hperm : order.Perm abbreviations) (range : Span) (text : List Char) :
    Divides range text (spansOf order range text) := by
  have hparts := parts_spansOf order range text
  refine ⟨hparts.toUnits, hparts.chain.imp ?_, ?_⟩
  · rintro s next ⟨i, hstop, hij, hgap, hmask⟩
    obtain ⟨hterminator, hkept⟩ := (isTerminator_mask hperm).1 hmask
    rw [Span.getElem?_slice hij.first.1, Option.any_eq_true] at hterminator
    have hlast : s.stop - 1 = i := by omega
    refine ⟨by omega, fun k hk hnext hvisible => ?_, hlast ▸ hterminator, fun a ha hinner h => ?_⟩
    · refine hij.nothing k (by omega) hnext ⟨⟨?_, ?_⟩, hvisible⟩
      · exact hij.first.1.1.trans (by omega)
      · exact hnext.trans hij.second.1.2
    · rw [hlast] at h
      exact hkept (masked_of_abbreviates hperm ha hinner h)
  · intro s hs i c hstart hstop hc hterminator hblank
    obtain ⟨_, hfirst, hlast⟩ := hparts.bounds s hs
    have hi : range.Covers i ∧ Visible text i := by
      refine ⟨⟨hfirst.1.1.trans hstart, ?_⟩, visible_of_isTerminator hc hterminator⟩
      have := hlast.1.2
      omega
    -- what comes next in the sentence is behind the blank, so the terminator is masked
    obtain ⟨j, hj, hij⟩ : ∃ j, j ≤ s.stop - 1 ∧
        Neighbours (fun i => range.Covers i ∧ Visible text i) i j :=
      Neighbours.exists_after rfl hi hlast (by omega)
    have hlt := hij.lt
    have htogether := (hparts.together i j hij).1
      ⟨s, hs, ⟨hstart, by omega⟩, ⟨by omega, by omega⟩⟩
    have hgap : i + 1 ≠ j := fun h => hblank (h ▸ hij.second.2)
    have hread : (range.slice text)[i - range.start]? = some c :=
      (Span.getElem?_slice hi.1).trans hc
    have hmasked : Masked order (range.slice text) (i - range.start) := by
      by_contra hkept
      refine htogether ⟨by omega, (isTerminator_mask hperm).2 ⟨?_, hkept⟩⟩
      rw [hread]
      exact hterminator
    have hstop := stop_of_masked hperm hmasked
    rw [hread] at hstop
    exact ⟨Option.some.inj hstop, ((masked_iff hperm).1 hmasked).1⟩

section Stops

variable {masking : Masking}

theorem mem_stops {p : Nat} : p ∈ stops masking text ↔
    ∃ r ∈ Run.ofText (mask masking.order text), r.stop = p ∧ closes r = true := by
  simp only [stops, List.mem_map, List.mem_filter]
  exact exists_congr fun r => and_assoc.trans (and_congr_right fun _ => and_comm)

theorem ordered_stops (masking : Masking) (text : List Char) :
    (stops masking text).Pairwise (· < ·) := by
  have horder := Run.inOrder_ofText (mask masking.order text)
  refine List.pairwise_map.2 (List.Pairwise.filter _ (horder.meets.imp_of_mem ?_))
  exact fun _ hq h => h.trans_lt (horder.bounds _ hq)

theorem visible_of_mem_stops {p : Nat} (h : p ∈ stops masking text) :
    0 < p ∧ Visible text (p - 1) := by
  obtain ⟨r, hr, rfl, _⟩ := mem_stops.1 h
  have hlt := (Run.inOrder_ofText _).bounds r hr
  have hcover := (Run.laid_cut 0 (mask masking.order text)).visible (r.stop - 1)
  rw [Nat.zero_add, visible_mask] at hcover
  have : r.stop = r.start + r.body.length := rfl
  exact ⟨by omega, hcover.2 ⟨r, hr, ⟨show r.start ≤ _ by omega, show _ < r.stop by omega⟩⟩⟩

theorem exists_mem_stops_iff (hij : Neighbours (Visible text) i j) :
    (∃ p ∈ stops masking text, i < p ∧ p ≤ j) ↔
      i + 1 < j ∧ (mask masking.order text)[i]?.any isTerminator = true := by
  rw [← closes_iff (hij.of_iff fun k => (visible_mask masking.order text k).symm), ← mem_stops]
  constructor
  · rintro ⟨p, hp, hip, hpj⟩
    obtain ⟨hpos, hlast⟩ := visible_of_mem_stops hp
    have := hij.eq_first hlast (by omega) (by omega)
    rwa [show i + 1 = p by omega]
  · intro hp
    exact ⟨i + 1, hp, Nat.lt_succ_self i, hij.lt⟩

theorem place_of_le {p : Nat} (hp : p ≤ text.length) : place text.length p = p := by
  rw [place, if_neg (Int.not_lt.2 (Int.natCast_nonneg p)), Int.toNat_natCast, Nat.min_eq_left hp]

/-- Inside the text the bounds may be given as any numbers: the sentences are those of the range. -/
theorem spansIn_eq (hle : range.start ≤ range.stop) (hlength : range.stop ≤ text.length) :
    spansIn range.start (some range.stop) text masking =
      .ok ((spansWithin masking range text).map Extent.ofSpan) := by
  have hordered : ((stops masking (range.slice text)).map (range.start + ·)).Pairwise (· < ·) :=
    List.pairwise_map.2 ((ordered_stops masking _).imp fun h => Nat.add_lt_add_left h range.start)
  have hin : ∀ p ∈ (stops masking (range.slice text)).map (range.start + ·),
      range.start ≤ p ∧ p ≤ range.stop := by
    intro p hp
    obtain ⟨n, hn, rfl⟩ := List.mem_map.1 hp
    obtain ⟨hpos, hvisible⟩ := visible_of_mem_stops hn
    have := (Span.visible_slice.1 hvisible).1.2
    omega
  have hparts : Parts (Span.Shows text range.start range.stop)
      (fun i j => ∃ p ∈ (stops masking (range.slice text)).map (range.start + ·), i < p ∧ p ≤ j)
      (spansWithin masking range text) := by
    have hseg := (parts_spansBy masking.order (range.slice text)).congr fun i j hij =>
      (exists_mem_stops_iff hij).symm
    refine hseg.of_slice.congr fun i j hij => ?_
    have := hij.first.1.1
    have := hij.second.1.1
    simp only [List.mem_map, exists_exists_and_eq_and]
    refine exists_congr fun p => and_congr_right fun _ => ?_
    omega
  have hbounds :
      ((stops masking (range.slice text)).map (range.start + ·)).map (Nat.cast : Nat → Int) =
      (stops masking (range.slice text)).map fun n : Nat => (range.start : Int) + (n : Int) :=
    List.map_map.trans (List.map_congr_left fun n _ => Int.natCast_add range.start n)
  have hbetween := Extent.between_eq_of_parts hordered hin hle hlength hparts
  rw [hbounds] at hbetween
  simp only [spansIn, Option.getD_some, place_of_le (hle.trans hlength), place_of_le hlength]
  exact hbetween

end Stops

/-- The sentences of a range are apart and end behind terminators, and a terminator before blanks
inside one is the full stop of an abbreviation, whatever the order. -/
theorem divides_range (hperm : order.Perm abbreviations) (hle : range.start ≤ range.stop)
    (hlength : range.stop ≤ text.length) :
    Divides range text (spansOf order range text) ∧
      spansIn range.start (some range.stop) text ⟨order, hperm⟩ =
        .ok ((spansOf order range text).map Extent.ofSpan) :=
  ⟨divides_spansOf hperm range text, spansIn_eq hle hlength⟩

theorem divides_range_reversed :
    spansOf abbreviations.reverse ⟨4, 26⟩ "Oh! Ask Dr. Who. No? A. B. C".toList =
        [⟨4, 16⟩, ⟨17, 20⟩, ⟨21, 23⟩, ⟨24, 26⟩] ∧
      Divides ⟨4, 26⟩ "Oh! Ask Dr. Who. No? A. B. C".toList
        (spansOf abbreviations.reverse ⟨4, 26⟩ "Oh! Ask Dr. Who. No? A. B. C".toList) ∧
      spansIn 4 (some 26) "Oh! Ask Dr. Who. No? A. B. C".toList
          ⟨abbreviations.reverse, List.reverse_perm abbreviations⟩ =
        .ok ((spansOf abbreviations.reverse ⟨4, 26⟩ "Oh! Ask Dr. Who. No? A. B. C".toList).map
          Extent.ofSpan) :=
  ⟨by decide +kernel, divides_range (List.reverse_perm abbreviations) (by decide) (by decide)⟩

end Retrieval.Sentence
