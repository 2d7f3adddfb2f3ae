import Retrieval.Proofs.Passage.Sliding

/-!
# How far the windows get

Each window begins behind the beginning of the one before it and does not end before it. It may end
at the same place: when a window was cut short behind an early mark, the next one can hold that mark
too, and be cut back to it again. This takes an overlap of two characters, and a budget that exceeds
the overlap by fewer characters than a mark is looked for, so with room to spare every chunk ends
behind the one before it.
-/

namespace Retrieval

variable {text : List Char}

namespace Window

variable {budget overlap s x : Nat} {w v : Span}

/-- The window that begins at `s` reaches over `x` and is cut back to it, behind a full stop or a
space. -/
structure CutBack (budget : Nat) (text : List Char) (s x : Nat) : Prop where
  more : s + budget < text.length
  short : x < s + budget
  snaps : Snaps text s (s + budget) x

/-- The mark behind which a window is cut back is not its first character and lies at most
`stopLookback` characters before its edge. -/
theorem CutBack.bounds (h : CutBack budget text s x) :
    s + 2 ≤ x ∧ s + budget < x + stopLookback := by
  obtain ⟨_, hshort, hsnaps⟩ := h
  cases hsnaps with
  | stop last =>
      obtain ⟨_, hs, _, hlook⟩ := last.1
      exact ⟨by omega, by omega⟩
  | space _ last =>
      obtain ⟨_, hs, _, hlook⟩ := last.1
      have hless : spaceLookback ≤ stopLookback := by decide
      exact ⟨by omega, by omega⟩
  | edge => exact absurd hshort (lt_irrefl _)

theorem Turn.bounds (h : Turn budget overlap text w v) (hb : 0 < budget) :
    w.start < v.start ∧ v.start < text.length ∧ w.stop ≤ v.stop := by
  have hs : w.start < text.length := by have := h.more; omega
  obtain ⟨hstart, hmeet⟩ := following_bounds overlap hb hs
  have hlt := hmeet.trans_lt ((edge_le_add hb text w.start).trans_lt h.more)
  rw [h.starts, h.ends', h.ends, h.starts]
  exact ⟨hstart, hlt, edge_mono hb hstart.le hlt⟩

/-- A window that ends with the one before it is cut back to the end of that one. -/
theorem Turn.cutBack (h : Turn budget overlap text w v) (hb : 0 < budget) (hle : v.stop ≤ w.stop) :
    CutBack budget text v.start w.stop := by
  obtain ⟨hstart, _, hge⟩ := h.bounds hb
  have hwindow : w.stop ≤ w.start + budget := h.ends.trans_le (edge_le_add hb text w.start)
  have hmore : v.start + budget < text.length := by
    by_contra hfinal
    have hend : edge budget text v.start = text.length := if_pos (not_lt.1 hfinal)
    have := h.ends'
    have := h.more
    omega
  have hend : v.stop = v.start + snap ((text.drop v.start).take budget) :=
    h.ends'.trans (if_neg (not_le.2 hmore))
  have hsnaps := snaps_snap hmore.le
  rw [← hend, le_antisymm hle hge] at hsnaps
  exact ⟨hmore, by omega, hsnaps⟩

end Window

namespace Strategy

variable {options : ChunkOptions} {masking : Sentence.Masking}

theorem steps_windows (hb : 0 < options.budget) (serial : Nat) (text : String)
    (masking : Sentence.Masking) :
    (fixedSize.chunks options serial text masking).IsChain fun a b =>
      a.start < b.start ∧ a.stop ≤ b.stop ∧ a.stop - b.start ≤ options.overlap ∧
        (a.stop < b.stop ∨ Window.CutBack options.budget text.toList b.start a.stop) := by
  refine ((List.isChain_map Chunk.span).1 (joined_windows hb serial text masking).chain).imp ?_
  rintro a b ⟨w, v, hturn, hstart, hstop, hbegin, hend⟩
  have hstart : a.start ≤ w.start := hstart
  have hstop : a.stop = w.stop := hstop
  have hbegin : b.start = v.start := hbegin
  have hend : v.stop ≤ b.stop := hend
  obtain ⟨hforth, _, hgrow⟩ := hturn.bounds hb
  rw [hstop, hbegin]
  refine ⟨hstart.trans_lt hforth, hgrow.trans hend, (hturn.overlaps hb).2, ?_⟩
  by_cases hle : v.stop ≤ w.stop
  · exact Or.inr (hturn.cutBack hb hle)
  · exact Or.inl ((not_le.1 hle).trans_le hend)

/-- Each chunk begins behind the beginning of the one before it and does not end before it. It also
ends behind its end, unless its window is cut back to just that place, which cannot happen when the
overlap is at most one character or leaves the budget the hundred characters in which a full stop
is looked for. -/
theorem windows_advance (hb : 0 < options.budget) (serial : Nat) (text : String) :
    (fixedSize.chunks options serial text masking).IsChain (fun a b =>
      a.start < b.start ∧ a.stop ≤ b.stop ∧
        (a.stop < b.stop ∨ Window.CutBack options.budget text.toList b.start a.stop)) ∧
    (options.overlap ≤ 1 ∨ options.overlap + Window.stopLookback ≤ options.budget →
      (fixedSize.chunks options serial text masking).IsChain fun a b => a.stop < b.stop) := by
  have hsteps := steps_windows hb serial text masking
  refine ⟨hsteps.imp fun a b hab => ⟨hab.1, hab.2.1, hab.2.2.2⟩, fun hroom => hsteps.imp ?_⟩
  rintro a b ⟨_, _, hshared, hlater | hcut⟩
  · exact hlater
  · have := hcut.bounds
    omega

theorem windows_advance_in_short_steps :
    0 < 6 ∧ (fixedSize.chunks ⟨6, 2, .fixedSize⟩ 0 "Ok. Done. Gone").IsChain (fun a b =>
        a.start < b.start ∧ a.stop ≤ b.stop ∧
          (a.stop < b.stop ∨ Window.CutBack 6 "Ok. Done. Gone".toList b.start a.stop)) ∧
      (fixedSize.chunks ⟨6, 1, .fixedSize⟩ 0 "Ok. Done. Gone").IsChain
        (fun a b => a.stop < b.stop) ∧
      (fixedSize.chunks ⟨6, 1, .fixedSize⟩ 0 "Ok. Done. Gone").map Chunk.span =
        [⟨0, 3⟩, ⟨2, 4⟩, ⟨3, 9⟩, ⟨8, 14⟩] :=
  have hb : 0 < 6 := by decide
  ⟨hb, (@windows_advance ⟨6, 2, .fixedSize⟩ _ hb 0 _).1,
    (@windows_advance ⟨6, 1, .fixedSize⟩ _ hb 0 _).2 (Or.inl le_rfl), by decide⟩

/-- An overlap smaller than the budget is not enough: the second chunk is the end of the first. -/
theorem second_window_ends_with_first :
    ¬ ∀ (options : ChunkOptions) (serial : Nat) (text : String), 0 < options.budget →
      options.overlap < options.budget →
      (fixedSize.chunks options serial text).IsChain fun a b => a.stop < b.stop := by
  intro h
  have hchain := h ⟨6, 2, .fixedSize⟩ 0 "Ok. Done" (by decide) (by decide)
  have hspans : (fixedSize.chunks ⟨6, 2, .fixedSize⟩ 0 "Ok. Done").map Chunk.span =
      [⟨0, 3⟩, ⟨1, 3⟩, ⟨2, 8⟩] := by
    decide
  have hstops : ((fixedSize.chunks ⟨6, 2, .fixedSize⟩ 0 "Ok. Done").map Chunk.span).IsChain
      fun p q => p.stop < q.stop :=
    (List.isChain_map Chunk.span).2 hchain
  rw [hspans] at hstops
  exact absurd hstops (by decide)

end Strategy

end Retrieval
