import Mathlib.Data.List.Chain
import Mathlib.Data.List.Pairwise
import Mathlib.Data.List.Sort
import Retrieval.Proofs.Passage.Lending

/-!
# Where units part

Two visible positions with only blanks between them are neighbours. Units of a text are settled by
which neighbours they part: units that part the same neighbours are the same. The units made by
joining runs part neighbours behind the runs that close, and there only.
-/

namespace Retrieval

open Text

/-- Positions of a kind with none of that kind between them. -/
structure Neighbours (visible : Nat → Prop) (i j : Nat) : Prop where
  lt : i < j
  first : visible i
  second : visible j
  nothing : ∀ k, i < k → k < j → ¬ visible k

namespace Neighbours

variable {visible : Nat → Prop} {i j k : Nat}

theorem of_iff {visible' : Nat → Prop} (h : Neighbours visible i j)
    (hv : ∀ i, visible i ↔ visible' i) : Neighbours visible' i j := by
  rwa [← funext fun i => propext (hv i)]

theorem eq_first (h : Neighbours visible i j) (hk : visible k) (hik : i ≤ k) (hkj : k < j) :
    k = i := by
  by_contra hne
  exact h.nothing k (by omega) hkj hk

theorem eq_second (h : Neighbours visible i j) (hk : visible k) (hik : i < k) (hkj : k ≤ j) :
    k = j := by
  by_contra hne
  exact h.nothing k hik (by omega) hk

theorem exists_before {n : Nat} (hn : j - i = n) (hi : visible i) (hj : visible j) (hij : i < j) :
    ∃ k, i ≤ k ∧ Neighbours visible k j := by
  induction n using Nat.strong_induction_on generalizing i with
  | _ n ih =>
      by_cases h : ∃ k, i < k ∧ k < j ∧ visible k
      · obtain ⟨k, hik, hkj, hk⟩ := h
        obtain ⟨l, hkl, hl⟩ := ih (j - k) (by omega) rfl hk hkj
        exact ⟨l, by omega, hl⟩
      · exact ⟨i, le_rfl, hij, hi, hj, fun k hik hkj hk => h ⟨k, hik, hkj, hk⟩⟩

theorem exists_after {n : Nat} (hn : j - i = n) (hi : visible i) (hj : visible j) (hij : i < j) :
    ∃ k, k ≤ j ∧ Neighbours visible i k := by
  induction n using Nat.strong_induction_on generalizing j with
  | _ n ih =>
      by_cases h : ∃ k, i < k ∧ k < j ∧ visible k
      · obtain ⟨k, hik, hkj, hk⟩ := h
        obtain ⟨l, hlk, hl⟩ := ih (k - i) (by omega) rfl hk hik
        exact ⟨l, by omega, hl⟩
      · exact ⟨j, le_rfl, hij, hi, hj, fun k hik hkj hk => h ⟨k, hik, hkj, hk⟩⟩

end Neighbours

/-- Units that part neighbours at the breaks, and at no other place. -/
structure Parts (visible : Nat → Prop) (breaks : Nat → Nat → Prop) (spans : List Span) : Prop
    extends Units visible spans where
  together : ∀ i j, Neighbours visible i j →
    ((∃ s ∈ spans, s.Covers i ∧ s.Covers j) ↔ ¬ breaks i j)

namespace Units

variable {visible : Nat → Prop} {spans : List Span} {s t : Span}

/-- Of two units one comes first, and what holds from earlier to later units holds that way. -/
theorem apart (h : Units visible spans) {R : Span → Span → Prop} (hR : spans.Pairwise R)
    (hs : s ∈ spans) (ht : t ∈ spans) (hne : s ≠ t) :
    s.stop ≤ t.start ∧ R s t ∨ t.stop ≤ s.start ∧ R t s := by
  have hsymm : Std.Symm fun a b : Span =>
      a.stop ≤ b.start ∧ R a b ∨ b.stop ≤ a.start ∧ R b a := ⟨fun _ _ => Or.symm⟩
  have hapart : spans.Pairwise fun a b =>
      a.stop ≤ b.start ∧ R a b ∨ b.stop ≤ a.start ∧ R b a :=
    (h.ordered.and hR).imp Or.inl
  exact hapart.forall hs ht hne

theorem eq_of_covers (h : Units visible spans) (hs : s ∈ spans) (ht : t ∈ spans) {i : Nat}
    (hsi : s.Covers i) (hti : t.Covers i) : s = t := by
  by_contra hne
  have := h.apart h.ordered hs ht hne
  have := hsi.1
  have := hsi.2
  have := hti.1
  have := hti.2
  omega

end Units

namespace Parts

variable {visible : Nat → Prop} {breaks others : Nat → Nat → Prop} {spans spans' : List Span}

theorem congr (h : Parts visible breaks spans)
    (hb : ∀ i j, Neighbours visible i j → (breaks i j ↔ others i j)) :
    Parts visible others spans :=
  ⟨h.toUnits, fun i j hij => (h.together i j hij).trans (not_congr (hb i j hij))⟩

theorem of_iff {visible' : Nat → Prop} (h : Parts visible breaks spans)
    (hv : ∀ i, visible i ↔ visible' i) : Parts visible' breaks spans := by
  rwa [← funext fun i => propext (hv i)]

theorem append {visible' : Nat → Prop} {m : Nat} (h : Parts visible breaks spans)
    (h' : Parts visible' others spans') (hbefore : ∀ i, visible i → i < m)
    (hbehind : ∀ i, visible' i → m ≤ i) :
    Parts (fun i => visible i ∨ visible' i)
      (fun i j => j < m ∧ breaks i j ∨ i < m ∧ m ≤ j ∨ m ≤ i ∧ others i j) (spans ++ spans') := by
  have hfirst : ∀ s ∈ spans, s.stop ≤ m := fun s hs => by
    have := hbefore _ (h.bounds s hs).2.2
    omega
  have hlater : ∀ s ∈ spans', m ≤ s.start := fun s hs => hbehind _ (h'.bounds s hs).2.1
  refine ⟨⟨?_, ?_, ?_⟩, fun i j hij => ?_⟩
  · intro s hs
    rcases List.mem_append.1 hs with hs | hs
    · exact (h.bounds s hs).imp_right (And.imp Or.inl Or.inl)
    · exact (h'.bounds s hs).imp_right (And.imp Or.inr Or.inr)
  · exact List.pairwise_append.2 ⟨h.ordered, h'.ordered, fun s hs t ht =>
      (hfirst s hs).trans (hlater t ht)⟩
  · rintro i (hi | hi)
    · obtain ⟨s, hs, hsi⟩ := h.covers i hi
      exact ⟨s, List.mem_append_left _ hs, hsi⟩
    · obtain ⟨s, hs, hsi⟩ := h'.covers i hi
      exact ⟨s, List.mem_append_right _ hs, hsi⟩
  · have hlt := hij.lt
    have hone : (∃ s ∈ spans, s.Covers i ∧ s.Covers j) → j < m := fun ⟨s, hs, _, hsj⟩ =>
      hsj.2.trans_le (hfirst s hs)
    have hother : (∃ s ∈ spans', s.Covers i ∧ s.Covers j) → m ≤ i := fun ⟨s, hs, hsi, _⟩ =>
      (hlater s hs).trans hsi.1
    simp only [List.mem_append, or_and_right, exists_or]
    rcases hij.first with hi | hi <;> rcases hij.second with hj | hj
    · have hin : Neighbours visible i j :=
        ⟨hlt, hi, hj, fun k hik hkj hk => hij.nothing k hik hkj (Or.inl hk)⟩
      have him := hbefore i hi
      have hjm := hbefore j hj
      rw [or_iff_left fun hs => by have := hother hs; omega, h.together i j hin]
      refine not_congr ⟨fun hb => Or.inl ⟨hjm, hb⟩, ?_⟩
      rintro (⟨_, hb⟩ | ⟨_, hle⟩ | ⟨hle, _⟩)
      · exact hb
      · omega
      · omega
    · have him := hbefore i hi
      have hjm := hbehind j hj
      refine iff_of_false ?_ (not_not_intro (Or.inr (Or.inl ⟨him, hjm⟩)))
      rintro (hs | hs)
      · exact absurd (hone hs) (not_lt.2 hjm)
      · exact absurd him (not_lt.2 (hother hs))
    · have := hbehind i hi
      have := hbefore j hj
      omega
    · have hin : Neighbours visible' i j :=
        ⟨hlt, hi, hj, fun k hik hkj hk => hij.nothing k hik hkj (Or.inr hk)⟩
      have him := hbehind i hi
      rw [or_iff_right fun hs => by have := hone hs; omega, h'.together i j hin]
      refine not_congr ⟨fun hb => Or.inr (Or.inr ⟨him, hb⟩), ?_⟩
      rintro (⟨hjm, _⟩ | ⟨hle, _⟩ | ⟨_, hb⟩)
      · omega
      · omega
      · exact hb

/-- What one span holds is not parted by any other units with the same breaks. -/
theorem exists_over (h : Parts visible breaks spans) (h' : Parts visible breaks spans')
    {s : Span} (hs : s ∈ spans) : ∃ t ∈ spans', t.start ≤ s.start ∧ s.stop ≤ t.stop := by
  obtain ⟨hlt, hfirst, hlast⟩ := h.bounds s hs
  obtain ⟨t, ht, hts⟩ := h'.covers s.start hfirst
  have hall (j : Nat) (hj : visible j) (hsj : s.Covers j) : t.Covers j := by
    induction j using Nat.strong_induction_on with
    | _ j ih =>
        by_cases hstart : j = s.start
        · rwa [hstart]
        · have hbehind : s.start < j := by
            have := hsj.1
            omega
          obtain ⟨i, hsi, hij⟩ := Neighbours.exists_before rfl hfirst hj hbehind
          have hi : s.Covers i := ⟨hsi, hij.lt.trans hsj.2⟩
          have hnot := (h.together i j hij).1 ⟨s, hs, hi, hsj⟩
          obtain ⟨u, hu, hui, huj⟩ := (h'.together i j hij).2 hnot
          have hti := ih i hij.lt hij.first hi
          rwa [h'.eq_of_covers ht hu hti hui]
  have hstop := (hall (s.stop - 1) hlast ⟨by omega, by omega⟩).2
  exact ⟨t, ht, hts.1, by omega⟩

theorem subset (h : Parts visible breaks spans) (h' : Parts visible breaks spans') :
    spans ⊆ spans' := by
  intro s hs
  obtain ⟨t, ht, hts⟩ := h.exists_over h' hs
  obtain ⟨u, hu, hut⟩ := h'.exists_over h ht
  have hlt := (h.bounds s hs).1
  have hsu : s = u := h.eq_of_covers hs hu ⟨le_rfl, hlt⟩ ⟨by omega, by omega⟩
  obtain ⟨a, b⟩ := s
  obtain ⟨c, d⟩ := t
  subst hsu
  dsimp only at hts hut
  obtain rfl : c = a := by omega
  obtain rfl : d = b := by omega
  exact ht

/-- The breaks leave one way to part a text. -/
theorem unique (h : Parts visible breaks spans) (h' : Parts visible breaks spans') :
    spans = spans' := by
  have hirrefl : Std.Irrefl fun a b : Span => a.start < b.start := ⟨fun a => lt_irrefl a.start⟩
  have hantisymm : Std.Antisymm fun a b : Span => a.start < b.start :=
    ⟨fun _ _ hab hba => absurd hab hba.asymm⟩
  exact List.Subset.antisymm_of_pairwise h.toOrdered.starts h'.toOrdered.starts (h.subset h')
    (h'.subset h)

theorem chain (h : Parts visible breaks spans) : spans.IsChain fun a b =>
    ∃ i, a.stop = i + 1 ∧ Neighbours visible i b.start ∧ breaks i b.start := by
  rw [List.isChain_iff_forall_rel_of_append_cons_cons]
  rintro a b front back rfl
  have ha : a ∈ front ++ a :: b :: back := by simp
  have hb : b ∈ front ++ a :: b :: back := by simp
  obtain ⟨hlt, _, hlast⟩ := h.bounds a ha
  obtain ⟨hlt', hfirst, _⟩ := h.bounds b hb
  obtain ⟨_, hbehind, hfront⟩ := List.pairwise_append.1 h.ordered
  obtain ⟨hnext, hbehind⟩ := List.pairwise_cons.1 hbehind
  have hab := hnext b List.mem_cons_self
  have hij : Neighbours visible (a.stop - 1) b.start := by
    refine ⟨by omega, hlast, hfirst, fun k hak hkb hk => ?_⟩
    obtain ⟨s, hs, hsk⟩ := h.covers k hk
    have := hsk.1
    have := hsk.2
    rcases List.mem_append.1 hs with hs | hs
    · have := hfront s hs a List.mem_cons_self
      omega
    · rcases List.mem_cons.1 hs with rfl | hs
      · omega
      · rcases List.mem_cons.1 hs with rfl | hs
        · omega
        · have := (List.pairwise_cons.1 hbehind).1 s hs
          omega
  refine ⟨a.stop - 1, by omega, hij, not_not.1 fun hnot => ?_⟩
  obtain ⟨s, hs, hsa, hsb⟩ := (h.together _ _ hij).2 hnot
  obtain rfl := h.eq_of_covers hs ha hsa ⟨by omega, by omega⟩
  have := hsb.2
  omega

/-- Units of a slice are units of the text once they are moved to where the slice begins. -/
theorem of_slice {range : Span} {text : List Char}
    (h : Parts (Visible (range.slice text)) breaks spans) :
    Parts (fun i => range.Covers i ∧ Visible text i)
      (fun i j => breaks (i - range.start) (j - range.start))
      (spans.map (Span.shift range.start)) := by
  have hvisible (i : Nat) : range.start ≤ i ∧ Visible (range.slice text) (i - range.start) ↔
      range.Covers i ∧ Visible text i := by
    rw [Span.visible_slice]
    constructor
    · rintro ⟨hi, h⟩
      rwa [Nat.add_sub_cancel' hi] at h
    · intro h
      rw [Nat.add_sub_cancel' h.1.1]
      exact ⟨h.1.1, h⟩
  refine ⟨(h.toUnits.shift range.start).congr hvisible, fun i j hij => ?_⟩
  obtain ⟨hi, hfirst⟩ := (hvisible i).2 hij.first
  obtain ⟨hj, hsecond⟩ := (hvisible j).2 hij.second
  have hmoved :
      Neighbours (Visible (range.slice text)) (i - range.start) (j - range.start) := by
    refine ⟨by have := hij.lt; omega, hfirst, hsecond, fun k hik hkj hk => ?_⟩
    refine hij.nothing (k + range.start) (by omega) (by omega) ((hvisible _).1 ⟨by omega, ?_⟩)
    rwa [Nat.add_sub_cancel]
  rw [← h.together _ _ hmoved]
  simp only [List.mem_map, exists_exists_and_eq_and, Span.Covers, Span.shift]
  refine exists_congr fun s => and_congr_right fun _ => ?_
  omega

end Parts

namespace Run

variable {closes : Run → Bool} {runs : List Run}

theorem ne_nil_of_group (closes : Run → Bool) (r : Run) (later : List Run) :
    group closes (r :: later) ≠ [] := by
  rcases group_cons closes r later with he | ⟨s, spans, _, he⟩ <;>
  · rw [he]
    exact List.cons_ne_nil _ _

theorem group_cons_cons (closes : Run → Bool) (r q : Run) (later : List Run) :
    ∃ s spans, group closes (q :: later) = s :: spans ∧
      group closes (r :: q :: later) =
        if closes r then r.span :: s :: spans else ⟨r.start, s.stop⟩ :: spans := by
  cases hg : group closes (q :: later) with
  | nil => exact absurd hg (ne_nil_of_group closes q later)
  | cons s spans => exact ⟨s, spans, rfl, by rw [group, hg]⟩

structure InOrder (runs : List Run) : Prop where
  bounds : ∀ r ∈ runs, r.start < r.stop
  meets : runs.Pairwise fun a b => a.stop ≤ b.start

namespace InOrder

variable {r q : Run} {later : List Run}

theorem tail (h : InOrder (r :: later)) : InOrder later :=
  ⟨fun q hq => h.bounds q (List.mem_cons_of_mem r hq), (List.pairwise_cons.1 h.meets).2⟩

theorem stop_le (h : InOrder (r :: later)) (hq : q ∈ later) : r.stop ≤ q.start :=
  (List.pairwise_cons.1 h.meets).1 q hq

theorem stop_le_of_mem_group (h : InOrder (r :: later)) {s : Span}
    (hs : s ∈ group closes later) : r.stop ≤ s.start := by
  obtain ⟨a, ha, b, _, rfl, _⟩ := ends_of_mem_group h.tail.meets h.tail.bounds hs
  exact h.stop_le ha

theorem start_le (h : InOrder runs) {s : Span} {spans : List Span}
    (hg : group closes runs = s :: spans) (hr : r ∈ runs) : s.start ≤ r.start := by
  obtain ⟨u, hu, hur, _⟩ : ∃ u ∈ group closes runs, u.start ≤ r.start ∧ r.stop ≤ u.stop :=
    exists_group_over h.meets h.bounds hr
  have hordered : (group closes runs).Pairwise fun a b => a.stop ≤ b.start :=
    ordered_group h.meets h.bounds
  have hs : s.start < s.stop := by
    obtain ⟨a, ha, b, hb, rfl, hab⟩ :=
      ends_of_mem_group h.meets h.bounds (hg ▸ List.mem_cons_self : s ∈ group closes runs)
    exact (h.bounds a ha).trans_le hab
  rw [hg] at hu hordered
  rcases List.mem_cons.1 hu with rfl | hu
  · exact hur
  · have := (List.pairwise_cons.1 hordered).1 u hu
    omega

end InOrder

theorem closes_eq_false (h : InOrder runs) {s : Span} {r : Run} (hs : s ∈ group closes runs)
    (hr : r ∈ runs) (hstart : s.start ≤ r.start) (hstop : r.stop < s.stop) : closes r = false := by
  induction runs generalizing s with
  | nil => cases hr
  | cons first later ih =>
      have hlater {s : Span} (hs : s ∈ group closes later) (hstart : s.start ≤ r.start)
          (hstop : r.stop < s.stop) : closes r = false := by
        have hfirst := h.stop_le_of_mem_group hs
        have := h.bounds r hr
        rcases List.mem_cons.1 hr with rfl | hr
        · omega
        · exact ih h.tail hs hr hstart hstop
      cases later with
      | nil =>
          obtain rfl := List.mem_singleton.1 hr
          obtain rfl := List.mem_singleton.1 hs
          exact absurd hstop (lt_irrefl r.stop)
      | cons q later =>
          obtain ⟨next, spans, hnext, hgroup⟩ := group_cons_cons closes first q later
          rw [hgroup] at hs
          split at hs
          · rcases List.mem_cons.1 hs with rfl | hs
            · have := h.bounds r hr
              rcases List.mem_cons.1 hr with rfl | hr
              · exact absurd hstop (lt_irrefl r.stop)
              · have hbehind := h.stop_le hr
                simp only [span] at hstop
                omega
            · exact hlater (hnext ▸ hs) hstart hstop
          · next hopen =>
            rcases List.mem_cons.1 hs with rfl | hs
            · rcases List.mem_cons.1 hr with rfl | hr
              · exact Bool.eq_false_iff.2 hopen
              · exact hlater (hnext ▸ List.mem_cons_self) (h.tail.start_le hnext hr) hstop
            · exact hlater (hnext ▸ List.mem_cons_of_mem next hs) hstart hstop

/-- Every span that another follows ends with a run that closes. -/
theorem closes_between (h : InOrder runs) :
    (group closes runs).Pairwise fun s _ => ∃ r ∈ runs, r.stop = s.stop ∧ closes r = true := by
  induction runs with
  | nil => exact .nil
  | cons r later ih =>
      cases later with
      | nil => exact List.pairwise_singleton _ _
      | cons q later =>
          have hlater := (ih h.tail).imp fun {s _} ⟨p, hp, hend⟩ =>
            (⟨p, List.mem_cons_of_mem r hp, hend⟩ :
              ∃ p ∈ r :: q :: later, p.stop = s.stop ∧ closes p = true)
          obtain ⟨next, spans, hnext, hgroup⟩ := group_cons_cons closes r q later
          rw [hnext] at hlater
          rw [hgroup]
          split
          · next hcloses =>
            exact List.pairwise_cons.2 ⟨fun _ _ => ⟨r, List.mem_cons_self, rfl, hcloses⟩, hlater⟩
          · exact List.pairwise_cons.2 (List.pairwise_cons.1 hlater)

theorem inOrder_ofText (text : List Char) : InOrder (ofText text) := by
  obtain ⟨hb, ho, _⟩ := laid_cut 0 text
  exact ⟨fun r hr => (hb r hr).2, ho⟩

/-- Joined runs part neighbours behind a run that closes. -/
theorem parts_group (closes : Run → Bool) (text : List Char) :
    Parts (Visible text) (fun i _ => ∃ r ∈ ofText text, r.stop = i + 1 ∧ closes r = true)
      (group closes (ofText text)) := by
  have hunits := units_group closes text
  have horder := inOrder_ofText text
  refine ⟨hunits, fun i j hij => ⟨?_, fun hnot => ?_⟩⟩
  · rintro ⟨s, hs, hi, hj⟩ ⟨r, hr, hstop, hcloses⟩
    have hlt := horder.bounds r hr
    obtain ⟨t, ht, hstart, hover⟩ :
        ∃ t ∈ group closes (ofText text), t.start ≤ r.start ∧ r.stop ≤ t.stop :=
      exists_group_over horder.meets horder.bounds hr
    obtain rfl := hunits.eq_of_covers hs ht hi ⟨by omega, by omega⟩
    have := hij.lt
    have := hj.2
    rw [closes_eq_false horder hs hr hstart (by omega)] at hcloses
    cases hcloses
  · obtain ⟨s, hs, hi⟩ := hunits.covers i hij.first
    obtain ⟨t, ht, hj⟩ := hunits.covers j hij.second
    by_cases hst : s = t
    · exact ⟨s, hs, hi, hst ▸ hj⟩
    · refine absurd ?_ hnot
      obtain ⟨hlt, _, hlast⟩ := hunits.bounds s hs
      have := hi.1
      have := hi.2
      have := hj.1
      have := hj.2
      have := hij.lt
      rcases hunits.apart (closes_between horder) hs ht hst with ⟨hle, r, hr, hstop, hcloses⟩ | hle
      · have hend : s.stop - 1 = i := hij.eq_first hlast (by omega) (by omega)
        exact ⟨r, hr, by omega, hcloses⟩
      · omega

theorem lead_cut (position : Nat) (text : List Char) :
    ∃ rest, text = (cut position text).1 ++ rest ∧
      (∀ c ∈ (cut position text).1, isBlank c = true) ∧ ∀ c ∈ rest.head?, isBlank c = false := by
  induction text generalizing position with
  | nil => exact ⟨[], rfl, fun _ hc => (nomatch hc), fun _ hc => (nomatch hc)⟩
  | cons c text ih =>
      cases hc : isBlank c with
      | true =>
          obtain ⟨rest, htext, hblank, hrest⟩ := ih (position + 1)
          rw [cut_cons_of_blank hc]
          exact ⟨rest, congrArg (c :: ·) htext, List.forall_mem_cons.2 ⟨hc, hblank⟩, hrest⟩
      | false =>
          have hlead : (cut position (c :: text)).1 = [] := by
            rcases cut_cons_of_visible hc position text with ⟨_, _, _, he⟩ | he <;> rw [he]
          rw [hlead]
          refine ⟨c :: text, rfl, fun _ hd => (nomatch hd), fun d hd => ?_⟩
          rwa [← Option.some.inj hd]

theorem around_cut {position : Nat} {text : List Char} {r : Run}
    (hr : r ∈ (cut position text).2) :
    ∃ before after, text = before ++ (r.body ++ (r.gap ++ after)) ∧
      r.start = position + before.length ∧ (∀ c ∈ r.gap, isBlank c = true) ∧
      ∀ c ∈ after.head?, isBlank c = false := by
  induction text generalizing position r with
  | nil => cases hr
  | cons c rest ih =>
      have hlater {r : Run} (hr : r ∈ (cut (position + 1) rest).2) :
          ∃ before after, c :: rest = before ++ (r.body ++ (r.gap ++ after)) ∧
            r.start = position + before.length ∧ (∀ c ∈ r.gap, isBlank c = true) ∧
            ∀ c ∈ after.head?, isBlank c = false := by
        obtain ⟨before, after, hrest, hstart, hfacts⟩ := ih hr
        refine ⟨c :: before, after, congrArg (c :: ·) hrest, ?_, hfacts⟩
        rw [hstart, List.length_cons, Nat.add_comm before.length, Nat.add_assoc]
      cases hc : isBlank c with
      | true =>
          rw [cut_cons_of_blank hc] at hr
          exact hlater hr
      | false =>
          rcases cut_cons_of_visible hc position rest with ⟨first, later, hcut, he⟩ | he
          · rw [he] at hr
            rcases List.mem_cons.1 hr with rfl | hr
            · obtain ⟨before, after, hrest, hstart, hfacts⟩ :=
                ih (hcut ▸ List.mem_cons_self : first ∈ (cut (position + 1) rest).2)
              rw [start_of_cut hcut] at hstart
              obtain rfl := List.length_eq_zero_iff.1 (show before.length = 0 by omega)
              exact ⟨[], after, congrArg (c :: ·) hrest, rfl, hfacts⟩
            · exact hlater (hcut ▸ List.mem_cons_of_mem first hr)
          · rw [he] at hr
            rcases List.mem_cons.1 hr with rfl | hr
            · obtain ⟨after, hrest, hblank, hafter⟩ := lead_cut (position + 1) rest
              exact ⟨[], after, congrArg (c :: ·) hrest, rfl, hblank, hafter⟩
            · exact hlater hr

theorem not_visible_stop {position : Nat} {text : List Char} {r : Run}
    (hr : r ∈ (cut position text).2) {i : Nat} (hi : r.stop = position + i) : ¬ Visible text i := by
  induction text generalizing position r i with
  | nil => cases hr
  | cons c rest ih =>
      have hlater {r : Run} (hr : r ∈ (cut (position + 1) rest).2)
          (hi : r.stop = position + i) : ¬ Visible (c :: rest) i := by
        have hbounds := (laid_cut (position + 1) rest).bounds r hr
        obtain ⟨j, rfl⟩ : ∃ j, i = j + 1 := ⟨i - 1, by omega⟩
        rw [visible_cons_succ]
        exact ih hr (by omega)
      obtain ⟨tail, htail, hlead, _⟩ := lead_cut (position + 1) rest
      have hflatten := cut_flatten (position + 1) rest
      cases hc : isBlank c with
      | true =>
          rw [cut_cons_of_blank hc] at hr
          exact hlater hr hi
      | false =>
          rcases hcut : cut (position + 1) rest with ⟨lead, runs⟩
          rw [hcut] at hlater htail hlead hflatten
          have hopened {gap : List Char} (hrest : ¬ Visible rest 0)
              (h : r = ⟨position, [c], gap⟩) : ¬ Visible (c :: rest) i := by
            have hstop : r.stop = position + 1 := h ▸ rfl
            obtain rfl : i = 1 := by omega
            rwa [visible_cons_succ]
          cases lead with
          | cons b lead =>
              rw [show cut position (c :: rest) = ([], ⟨position, [c], b :: lead⟩ :: runs) by
                simp [cut, hc, hcut]] at hr
              rcases List.mem_cons.1 hr with hr | hr
              · refine hopened ?_ hr
                rw [htail, List.cons_append, visible_cons_zero, hlead b List.mem_cons_self]
                exact Bool.noConfusion
              · exact hlater hr hi
          | nil =>
              cases runs with
              | nil =>
                  rw [show cut position (c :: rest) = ([], [⟨position, [c], []⟩]) by
                    simp [cut, hc, hcut]] at hr
                  refine hopened (fun hv => ?_) (List.mem_singleton.1 hr)
                  obtain rfl : [] = rest := hflatten
                  exact absurd hv.lt_length (lt_irrefl 0)
              | cons first later =>
                  rw [show cut position (c :: rest) =
                      ([], { first with start := position, body := c :: first.body } :: later) by
                    simp [cut, hc, hcut]] at hr
                  rcases List.mem_cons.1 hr with rfl | hr
                  · refine hlater List.mem_cons_self ?_
                    rw [stop, List.length_cons] at hi
                    rw [← hi, stop, start_of_cut hcut]
                    dsimp only
                    omega
                  · exact hlater (List.mem_cons_of_mem first hr) hi

section Around

variable {text : List Char} {r : Run} {i j : Nat}

theorem getLast?_body (hr : r ∈ ofText text) : r.body.getLast? = text[r.stop - 1]? := by
  obtain ⟨before, after, htext, hstart, _⟩ := around_cut hr
  have hlt := (inOrder_ofText text).bounds r hr
  rw [stop] at hlt
  rw [Nat.zero_add] at hstart
  rw [List.getLast?_eq_getElem?, htext, stop, hstart, List.getElem?_append_right (by omega),
    List.getElem?_append_left (by omega)]
  congr 1
  omega

theorem gap_eq_slice (hr : r ∈ ofText text) (hij : Neighbours (Visible text) i j)
    (hstop : r.stop = i + 1) : r.gap = Span.slice ⟨i + 1, j⟩ text := by
  obtain ⟨before, after, htext, hstart, hgap, hafter⟩ := around_cut hr
  have hdrop : text.drop (i + 1) = r.gap ++ after := by
    rw [htext, ← List.append_assoc]
    refine List.drop_left' ?_
    rw [List.length_append, ← hstop, stop, hstart, Nat.zero_add]
  have hget (k : Nat) : text[i + 1 + k]? = (r.gap ++ after)[k]? := by
    rw [← hdrop, List.getElem?_drop]
  obtain ⟨n, rfl⟩ : ∃ n, j = i + 1 + n := ⟨j - (i + 1), by have := hij.lt; omega⟩
  obtain ⟨d, hd, hvisible⟩ := hij.second
  rw [hget] at hd
  have hbehind : r.gap.length ≤ n := by
    by_contra hlt
    rw [List.getElem?_append_left (by omega)] at hd
    rw [hgap d (List.mem_of_getElem? hd)] at hvisible
    cases hvisible
  have hlength : n = r.gap.length := by
    cases after with
    | nil =>
        rw [List.getElem?_append_right hbehind] at hd
        cases hd
    | cons c after =>
        have hc : Visible text (i + 1 + r.gap.length) :=
          ⟨c, by rw [hget, List.getElem?_append_right le_rfl, Nat.sub_self]; rfl, hafter c rfl⟩
        have := hij.eq_second hc (by omega) (by omega)
        omega
  rw [Span.slice, hdrop, Span.length, Nat.add_sub_cancel_left, hlength, List.take_left]

theorem exists_stop (hij : Neighbours (Visible text) i j) (hgap : i + 1 < j) :
    ∃ r ∈ ofText text, r.stop = i + 1 := by
  have hcover (k : Nat) : Visible text k ↔ ∃ r ∈ ofText text, r.span.Covers k := by
    have h := (laid_cut 0 text).visible k
    rwa [Nat.zero_add] at h
  obtain ⟨r, hr, hi⟩ := (hcover i).1 hij.first
  refine ⟨r, hr, ?_⟩
  by_contra hne
  have hinside : r.span.Covers (i + 1) := by
    have := hi.1
    have := hi.2
    simp only [Span.Covers, span] at *
    omega
  exact hij.nothing (i + 1) (Nat.lt_succ_self i) hgap ((hcover _).2 ⟨r, hr, hinside⟩)

/-- A run ends between neighbours exactly if they are not next to each other. -/
theorem exists_stop_iff (hij : Neighbours (Visible text) i j) :
    (∃ r ∈ ofText text, r.stop = i + 1) ↔ i + 1 < j := by
  refine ⟨?_, exists_stop hij⟩
  rintro ⟨r, hr, hstop⟩
  have hblank : ¬ Visible text (i + 1) := not_visible_stop hr (by rw [hstop, Nat.zero_add])
  have hne : i + 1 ≠ j := fun h => hblank (h ▸ hij.second)
  have := hij.lt
  omega

end Around

end Run

end Retrieval
