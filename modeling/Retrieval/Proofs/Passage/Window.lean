import Retrieval.Proofs.Passage.Snap
import Retrieval.Proofs.Passage.Tracing

/-!
# Windows and their pieces

The windows sweep over the whole text: each begins behind the beginning of the one before it, but
not behind its end, and none ends before the one before it. Dropping the blank ones keeps this true
of the pieces, since a piece takes up nothing but blanks when it is extended.
-/

namespace Retrieval.Window

open Text

variable {text : List Char} {budget s s' : Nat}

def edge (budget : Nat) (text : List Char) (s : Nat) : Nat :=
  if text.length ≤ s + budget then text.length else s + snap ((text.drop s).take budget)

def following (budget overlap : Nat) (text : List Char) (s : Nat) : Nat :=
  max (s + 1) (edge budget text s - overlap)

theorem edge_bounds (hb : 0 < budget) (hs : s < text.length) :
    s < edge budget text s ∧ edge budget text s ≤ text.length := by
  unfold edge
  split
  · exact ⟨hs, le_rfl⟩
  · have h : s + budget ≤ text.length := by omega
    have hx := (snaps_snap h).bounds (by omega)
    omega

theorem edge_le_add (hb : 0 < budget) (text : List Char) (s : Nat) :
    edge budget text s ≤ s + budget := by
  unfold edge
  split
  · assumption
  · have h : s + budget ≤ text.length := by omega
    exact ((snaps_snap h).bounds (by omega)).2

theorem following_bounds (overlap : Nat) (hb : 0 < budget) (hs : s < text.length) :
    s < following budget overlap text s ∧
      following budget overlap text s ≤ edge budget text s := by
  have := (edge_bounds hb hs).1
  rw [following]
  omega

theorem edge_mono (hb : 0 < budget) (hs : s ≤ s') (hs' : s' < text.length) :
    edge budget text s ≤ edge budget text s' := by
  by_cases hfinal : text.length ≤ s' + budget
  · have hedge : edge budget text s' = text.length := if_pos hfinal
    rw [hedge]
    exact (edge_bounds hb (hs.trans_lt hs')).2
  · have h : s + budget ≤ text.length := by omega
    have h' : s' + budget ≤ text.length := by omega
    have hmono := (snaps_snap h).mono (snaps_snap h') (by omega) hs (by omega)
    rw [edge, edge, if_neg hfinal, if_neg (by omega)]
    exact hmono

theorem slide_skip (budget overlap skip position : Nat) (rest : List Char) :
    slide budget overlap skip position rest =
      slide budget overlap 0 (position + skip) (rest.drop skip) := by
  induction skip generalizing position rest with
  | zero => rw [Nat.add_zero, List.drop_zero]
  | succ skip ih =>
      cases rest with
      | nil => simp [slide]
      | cons c rest => rw [slide, ih, List.drop_succ_cons, Nat.add_right_comm, Nat.add_assoc]

theorem slide_drop (overlap : Nat) (hs : s < text.length) :
    slide budget overlap 0 s (text.drop s) =
      ⟨s, edge budget text s⟩ ::
        if text.length ≤ s + budget then []
        else slide budget overlap 0 (following budget overlap text s)
          (text.drop (following budget overlap text s)) := by
  have hrest : (text.drop s).length = text.length - s := List.length_drop
  obtain ⟨c, rest, hc⟩ := List.exists_cons_of_ne_nil
    (List.ne_nil_of_length_pos (by omega : 0 < (text.drop s).length))
  have htail : text.drop (s + 1) = rest := by
    rw [← List.drop_drop, hc, List.drop_one, List.tail_cons]
  rw [hc] at hrest
  rw [hc, slide, edge]
  by_cases hfinal : text.length ≤ s + budget
  · have hempty : ((c :: rest).drop budget).isEmpty = true := by
      rw [List.isEmpty_iff, List.drop_eq_nil_iff]
      omega
    rw [if_pos hempty, if_pos hfinal, if_pos hfinal, hrest, Nat.add_sub_cancel' hs.le]
  · have hmore : ¬ ((c :: rest).drop budget).isEmpty = true := by
      rw [List.isEmpty_iff, List.drop_eq_nil_iff]
      omega
    have hnext : following budget overlap text s =
        s + 1 + (snap ((c :: rest).take budget) - overlap - 1) := by
      rw [following, edge, if_neg hfinal, hc]
      omega
    have hslide := slide_skip budget overlap (snap ((c :: rest).take budget) - overlap - 1) (s + 1)
      rest
    rw [if_neg hmore, if_neg hfinal, if_neg hfinal, hnext, ← List.drop_drop, htail, hc]
    exact congrArg (List.cons _) hslide

/-- Windows that sweep up to `stop`. -/
inductive Sweep (stop : Nat) : List Span → Prop
  | last {w : Span} (hlt : w.start < w.stop) (hstop : w.stop = stop) : Sweep stop [w]
  | cons {w v : Span} {later : List Span} (hstart : w.start < v.start) (hmeet : v.start ≤ w.stop)
      (hstop : w.stop ≤ v.stop) (rest : Sweep stop (v :: later)) : Sweep stop (w :: v :: later)

theorem sweep_slide (overlap : Nat) (hb : 0 < budget) (hs : s < text.length) :
    ∃ later, slide budget overlap 0 s (text.drop s) = ⟨s, edge budget text s⟩ :: later ∧
      Sweep text.length (⟨s, edge budget text s⟩ :: later) := by
  induction hn : text.length - s using Nat.strongRecOn generalizing s with
  | _ n ih =>
      obtain ⟨hlt, hle⟩ := edge_bounds hb hs
      rw [slide_drop overlap hs]
      refine ⟨_, rfl, ?_⟩
      by_cases hfinal : text.length ≤ s + budget
      · rw [if_pos hfinal]
        exact .last hlt (if_pos hfinal)
      · have hedge : edge budget text s < text.length :=
          (edge_le_add hb text s).trans_lt (not_le.1 hfinal)
        obtain ⟨hstart, hmeet⟩ := following_bounds overlap hb hs
        have hs' := hmeet.trans_lt hedge
        obtain ⟨later, he, hsweep⟩ := ih _ (by omega) hs' rfl
        rw [if_neg hfinal, he]
        exact .cons hstart hmeet (edge_mono hb hstart.le hs') hsweep

namespace Sweep

variable {stop : Nat} {w : Span} {windows later : List Span}

theorem bounds (h : Sweep stop windows) : ∀ w ∈ windows, w.start < w.stop ∧ w.stop ≤ stop := by
  induction h with
  | last hlt hstop =>
      intro w hw
      rw [List.mem_singleton.1 hw]
      exact ⟨hlt, hstop.le⟩
  | @cons w v later hstart hmeet hstop _ ih =>
      intro x hx
      rcases List.mem_cons.1 hx with rfl | hx
      · exact ⟨hstart.trans_le hmeet, hstop.trans (ih v List.mem_cons_self).2⟩
      · exact ih x hx

theorem advances (h : Sweep stop windows) :
    windows.Pairwise fun a b => a.start < b.start ∧ a.stop ≤ b.stop := by
  induction h with
  | last => exact List.pairwise_singleton _ _
  | @cons w v later hstart hmeet hstop _ ih =>
      refine List.pairwise_cons.2 ⟨fun x hx => ?_, ih⟩
      rcases List.mem_cons.1 hx with rfl | hx
      · exact ⟨hstart, hstop⟩
      · obtain ⟨hs, he⟩ := (List.pairwise_cons.1 ih).1 x hx
        exact ⟨hstart.trans hs, hstop.trans he⟩

theorem covers (h : Sweep stop (w :: later)) {i : Nat} (hi : w.start ≤ i) (hstop : i < stop) :
    ∃ v ∈ w :: later, v.Covers i := by
  induction later generalizing w with
  | nil =>
      cases h with
      | last _ he => exact ⟨w, List.mem_cons_self, hi, he ▸ hstop⟩
  | cons v later ih =>
      cases h with
      | cons _ hmeet _ rest =>
          by_cases hw : i < w.stop
          · exact ⟨w, List.mem_cons_self, hi, hw⟩
          · obtain ⟨x, hx, hxi⟩ := ih rest (by omega)
            exact ⟨x, List.mem_cons_of_mem w hx, hxi⟩

end Sweep

/-- A piece that grew out of a window by taking up blanks behind it. -/
structure Grown (text : List Char) (w : Span) (p : Span × List Char) : Prop where
  start : p.1.start = w.start
  stop : w.stop ≤ p.1.stop
  le_length : p.1.stop ≤ text.length
  body : p.2 = trim (w.slice text)
  body_ne : p.2 ≠ []
  blank : ∀ i, w.stop ≤ i → i < p.1.stop → ¬ Visible text i

theorem Grown.body_eq {w : Span} {p : Span × List Char} (h : Grown text w p)
    (hlt : w.start < w.stop) : p.2 = trim (p.1.slice text) := by
  rw [h.body]
  refine (Span.trim_slice_of_visible_in h.start.le hlt.le h.stop fun i hi hvis => ⟨?_, ?_⟩).symm
  · exact h.start.symm.trans_le hi.1
  · by_contra hlate
    exact h.blank i (by omega) hi.2 hvis

/-- What `absorb` owes for the windows it has seen: nothing visible is dropped, and the blanks it
hands on to the window before begin where that window ends. -/
structure Absorbed (text : List Char) (windows : List Span)
    (out : Nat × List (Span × List Char)) : Prop where
  reach_le : out.1 ≤ text.length
  reach_blank : ∀ i, (∀ w, windows.head? = some w → w.start ≤ i) → i < out.1 → ¬ Visible text i
  reach_stop : ∀ p ∈ out.2, out.1 ≤ p.1.stop
  grown : ∀ p ∈ out.2, ∃ w ∈ windows, Grown text w p
  starts : out.2.Pairwise fun p q => p.1.start < q.1.start
  stops : out.2.Pairwise fun p q => p.1.stop ≤ q.1.stop
  covers : ∀ w ∈ windows, ∀ i, w.Covers i → Visible text i → ∃ p ∈ out.2, p.1.Covers i

theorem absorb_cons_of_blank {w : Span} (h : trim (w.slice text) = []) (later : List Span) :
    absorb text (w :: later) = (max w.stop (absorb text later).1, (absorb text later).2) := by
  rw [absorb]
  simp only [h]

theorem absorb_cons_of_visible {w : Span} (h : trim (w.slice text) ≠ []) (later : List Span) :
    absorb text (w :: later) = (0, (⟨w.start, max w.stop (absorb text later).1⟩,
      trim (w.slice text)) :: (absorb text later).2) := by
  rcases hl : absorb text later with ⟨reach, pieces⟩
  rw [absorb, hl]
  cases hb : trim (w.slice text) with
  | nil => exact absurd hb h
  | cons c body => rfl

theorem absorbed_nil (text : List Char) : Absorbed text [] (absorb text []) where
  reach_le := Nat.zero_le _
  reach_blank _ _ h := absurd h (Nat.not_lt_zero _)
  reach_stop _ hp := nomatch hp
  grown _ hp := nomatch hp
  starts := .nil
  stops := .nil
  covers _ hw := nomatch hw

theorem Absorbed.cons {w : Span} {later : List Span}
    (h : Absorbed text later (absorb text later)) (hlt : w.start < w.stop)
    (hle : w.stop ≤ text.length) (hmeet : ∀ v, later.head? = some v → v.start ≤ w.stop)
    (hlater : ∀ v ∈ later, w.start < v.start ∧ w.stop ≤ v.stop) :
    Absorbed text (w :: later) (absorb text (w :: later)) := by
  have hgap (i : Nat) (hi : w.stop ≤ i) (hr : i < (absorb text later).1) : ¬ Visible text i :=
    h.reach_blank i (fun v hv => (hmeet v hv).trans hi) hr
  have hreach : max w.stop (absorb text later).1 ≤ text.length := max_le hle h.reach_le
  have hstop : ∀ p ∈ (absorb text later).2, max w.stop (absorb text later).1 ≤ p.1.stop := by
    intro p hp
    obtain ⟨v, hv, hg⟩ := h.grown p hp
    exact max_le ((hlater v hv).2.trans hg.stop) (h.reach_stop p hp)
  by_cases hblank : trim (w.slice text) = []
  · have hw := Span.trim_slice_eq_nil_iff.1 hblank
    rw [absorb_cons_of_blank hblank]
    refine ⟨hreach, fun i hi hr => ?_, hstop, fun p hp => ?_, h.starts, h.stops, ?_⟩
    · by_cases hiw : i < w.stop
      · exact hw i ⟨hi w rfl, hiw⟩
      · exact hgap i (by omega) (by dsimp only at hr; omega)
    · obtain ⟨v, hv, hg⟩ := h.grown p hp
      exact ⟨v, List.mem_cons_of_mem w hv, hg⟩
    · intro v hv i hi hvis
      rcases List.mem_cons.1 hv with rfl | hv
      · exact absurd hvis (hw i hi)
      · exact h.covers v hv i hi hvis
  · rw [absorb_cons_of_visible hblank]
    refine ⟨Nat.zero_le _, fun i _ hr => absurd hr (Nat.not_lt_zero i), fun _ _ => Nat.zero_le _,
      fun p hp => ?_, List.pairwise_cons.2 ⟨fun p hp => ?_, h.starts⟩,
      List.pairwise_cons.2 ⟨hstop, h.stops⟩, ?_⟩
    · rcases List.mem_cons.1 hp with rfl | hp
      · refine ⟨w, List.mem_cons_self, rfl, le_max_left _ _, hreach, rfl, hblank, fun i hi hr => ?_⟩
        exact hgap i hi (by dsimp only at hr; omega)
      · obtain ⟨v, hv, hg⟩ := h.grown p hp
        exact ⟨v, List.mem_cons_of_mem w hv, hg⟩
    · obtain ⟨v, hv, hg⟩ := h.grown p hp
      exact (hlater v hv).1.trans_eq hg.start.symm
    · intro v hv i hi hvis
      rcases List.mem_cons.1 hv with rfl | hv
      · exact ⟨_, List.mem_cons_self, hi.1, hi.2.trans_le (le_max_left _ _)⟩
      · obtain ⟨p, hp, hpi⟩ := h.covers v hv i hi hvis
        exact ⟨p, List.mem_cons_of_mem _ hp, hpi⟩

theorem absorbed_of_sweep {windows : List Span} (h : Sweep text.length windows) :
    Absorbed text windows (absorb text windows) := by
  induction h with
  | last hlt hstop =>
      exact (absorbed_nil text).cons hlt hstop.le (fun _ hv => nomatch hv) (fun _ hv => nomatch hv)
  | @cons w v later hstart hmeet hstop rest ih =>
      have hsweep := rest.cons hstart hmeet hstop
      obtain ⟨hlt, hle⟩ := hsweep.bounds w List.mem_cons_self
      refine ih.cons hlt hle (fun x hx => ?_) (List.pairwise_cons.1 hsweep.advances).1
      cases hx
      exact hmeet

theorem Absorbed.traces {windows : List Span} {out : Nat × List (Span × List Char)}
    (h : Absorbed text windows out) (hw : ∀ w ∈ windows, w.start < w.stop)
    (hall : ∀ i, i < text.length → ∃ w ∈ windows, w.Covers i) : Traces text out.2 where
  bounds p hp := by
    obtain ⟨w, hwm, hg⟩ := h.grown p hp
    rw [hg.start]
    exact ⟨(hw w hwm).trans_le hg.stop, hg.le_length⟩
  bodies p hp := by
    obtain ⟨w, hwm, hg⟩ := h.grown p hp
    exact ⟨hg.body_ne, hg.body_eq (hw w hwm)⟩
  starts := h.starts
  stops := h.stops
  covers i hi := by
    obtain ⟨w, hwm, hwi⟩ := hall i hi.lt_length
    exact h.covers w hwm i hwi hi

theorem traces_pieces (overlap : Nat) (hb : 0 < budget) (text : List Char) :
    Traces text (pieces budget overlap text) := by
  rw [pieces]
  by_cases hlen : 0 < text.length
  · obtain ⟨later, he, hsweep⟩ := sweep_slide overlap hb hlen
    rw [List.drop_zero] at he
    have htraces : Traces text (absorb text (slide budget overlap 0 0 text)).2 := by
      rw [he]
      exact (absorbed_of_sweep hsweep).traces (fun w hw => (hsweep.bounds w hw).1)
        fun i hi => hsweep.covers (Nat.zero_le i) hi
    split
    · next hnil => exact hnil ▸ htraces
    · next s body later hcons => exact (hcons ▸ htraces).extend_first
  · obtain rfl : text = [] := List.eq_nil_of_length_eq_zero (by omega)
    exact Traces.nil fun i hi => absurd hi.lt_length (Nat.not_lt_zero i)

end Retrieval.Window
