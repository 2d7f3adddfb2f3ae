import Mathlib.Data.List.Chain
import Retrieval.Proofs.Passage.Cutting

/-!
# Windows slide without gaps

What one turn of the window does is said once. Each piece ends where a window ends and the piece
behind it begins where the next window begins, however many blank windows lie between them. So the
pieces lead through the text from its beginning to its end, and neighbours share what neighbouring
windows share.
-/

namespace Retrieval

open Text

variable {text : List Char}

namespace Window

variable {budget overlap s : Nat} {R : Span → Span → Prop} {stop : Nat} {w v p q : Span}
  {windows later : List Span}

/-- From a window that ends short of the text to the next one. -/
structure Turn (budget overlap : Nat) (text : List Char) (w v : Span) : Prop where
  more : w.start + budget < text.length
  ends : w.stop = edge budget text w.start
  starts : v.start = following budget overlap text w.start
  ends' : v.stop = edge budget text v.start

theorem turns_slide (overlap : Nat) (hb : 0 < budget) (hs : s < text.length) :
    (slide budget overlap 0 s (text.drop s)).IsChain (Turn budget overlap text) := by
  -- the next window begins inside this one, so what shrinks is the text behind the beginning
  induction hn : text.length - s using Nat.strongRecOn generalizing s with
  | _ n ih =>
      rw [slide_drop overlap hs]
      by_cases hfinal : text.length ≤ s + budget
      · rw [if_pos hfinal]
        exact .singleton _
      · obtain ⟨hstart, hmeet⟩ := following_bounds overlap hb hs
        have hs' := hmeet.trans_lt ((edge_le_add hb text s).trans_lt (not_le.1 hfinal))
        have hrest := ih _ (by omega) hs' rfl
        rw [if_neg hfinal]
        rw [slide_drop overlap hs'] at hrest ⊢
        exact hrest.cons_cons ⟨not_le.1 hfinal, rfl, rfl, rfl⟩

/-- The window turns at most once for each character of the text. -/
theorem length_slide_le (budget overlap skip position : Nat) (text : List Char) :
    (slide budget overlap skip position text).length ≤ text.length := by
  induction text generalizing skip position with
  | nil => simp [slide]
  | cons c rest ih =>
      cases skip with
      | succ skip => exact (ih skip (position + 1)).trans (Nat.le_succ _)
      | zero =>
          rw [slide]
          split
          · exact Nat.succ_le_succ (Nat.zero_le _)
          · exact Nat.succ_le_succ (ih _ _)

theorem snap_le (window : List Char) : snap window ≤ window.length := by
  rw [snap]
  split
  · exact Nat.sub_le _ _
  · split
    · exact Nat.sub_le _ _
    · exact le_rfl

theorem length_le_of_mem_slide {skip position : Nat}
    (hw : w ∈ slide budget overlap skip position text) : w.length ≤ budget := by
  induction text generalizing skip position with
  | nil => simp [slide] at hw
  | cons c rest ih =>
      cases skip with
      | succ skip => exact ih hw
      | zero =>
          rw [slide] at hw
          split at hw
          · next hall =>
            rw [List.isEmpty_iff, List.drop_eq_nil_iff] at hall
            rw [List.mem_singleton.1 hw, Span.length, Nat.add_sub_cancel_left]
            exact hall
          · rcases List.mem_cons.1 hw with rfl | hw
            · rw [Span.length, Nat.add_sub_cancel_left]
              exact (snap_le _).trans (List.length_take_le budget (c :: rest))
            · exact ih hw

/-- One span ends with a window, and the other begins with a window that follows it. -/
def Meets (R : Span → Span → Prop) (p q : Span) : Prop :=
  ∃ w v, R w v ∧ p.start ≤ w.start ∧ p.stop = w.stop ∧ q.start = v.start ∧ v.stop ≤ q.stop

/-- Spans that follow each other as windows do, up to `stop`. -/
structure Joined (R : Span → Span → Prop) (stop : Nat) (spans : List Span) : Prop where
  chain : spans.IsChain (Meets R)
  last : ∀ p, spans.getLast? = some p → p.stop = stop

namespace Joined

variable {spans : List Span}

theorem nil : Joined R stop [] := ⟨.nil, by simp⟩

theorem single (h : p.stop = stop) : Joined R stop [p] :=
  ⟨.singleton p, fun _ hq => Option.some.inj hq ▸ h⟩

theorem cons (hm : Meets R p q) (h : Joined R stop (q :: spans)) :
    Joined R stop (p :: q :: spans) :=
  ⟨h.chain.cons_cons hm, fun l hl => h.last l (by rwa [List.getLast?_cons_cons] at hl)⟩

theorem tail (h : Joined R stop (p :: spans)) : Joined R stop spans :=
  ⟨h.chain.tail, fun l hl => h.last l (by rw [List.getLast?_cons, hl]; rfl)⟩

theorem extend (h : Joined R stop (p :: spans)) (hstart : q.start ≤ p.start)
    (hstop : q.stop = p.stop) : Joined R stop (q :: spans) := by
  refine ⟨h.chain.imp_head ?_, fun l hl => ?_⟩
  · rintro x ⟨w, v, hR, hpw, hpe, hx⟩
    exact ⟨w, v, hR, hstart.trans hpw, hstop.trans hpe, hx⟩
  · cases spans with
    | nil => exact Option.some.inj hl ▸ hstop.trans (h.last p rfl)
    | cons x spans => exact h.last l (by rwa [List.getLast?_cons_cons] at hl ⊢)

end Joined

/-- Behind a window that is kept, the pieces join as the windows do: what the blank windows behind a
piece add to it ends where the last of them ends. -/
theorem joined_absorb (text : List Char) (hs : Sweep stop (w :: later))
    (hR : (w :: later).IsChain R) :
    Joined R stop (⟨w.start, max w.stop (absorb text later).1⟩ ::
      (absorb text later).2.map Prod.fst) := by
  induction later generalizing w with
  | nil =>
      cases hs with
      | last _ hstop => exact .single (by rw [absorb, Nat.max_zero, hstop])
  | cons v later ih =>
      obtain ⟨hwv, hlater⟩ := List.isChain_cons_cons.1 hR
      cases hs with
      | cons hstart _ hstop rest =>
          have hjoined := ih rest hlater
          by_cases hblank : trim (v.slice text) = []
          · -- the blank window adds its end to the piece
            rw [absorb_cons_of_blank hblank]
            refine hjoined.extend hstart.le ?_
            exact max_eq_right (hstop.trans (le_max_left _ _))
          · rw [absorb_cons_of_visible hblank, List.map_cons]
            refine hjoined.cons ⟨w, v, hwv, le_rfl, ?_, rfl, le_max_left _ _⟩
            exact Nat.max_zero w.stop

theorem joined_absorb_cons (text : List Char) (hs : Sweep stop (w :: later))
    (hR : (w :: later).IsChain R) :
    Joined R stop ((absorb text (w :: later)).2.map Prod.fst) := by
  have hjoined := joined_absorb text hs hR
  by_cases hblank : trim (w.slice text) = []
  · rw [absorb_cons_of_blank hblank]
    exact hjoined.tail
  · rw [absorb_cons_of_visible hblank]
    exact hjoined

theorem joined_pieces (overlap : Nat) (hb : 0 < budget) (text : List Char) :
    Joined (Turn budget overlap text) text.length
      ((pieces budget overlap text).map Prod.fst) := by
  rw [pieces]
  by_cases hlen : 0 < text.length
  · obtain ⟨later, he, hsweep⟩ := sweep_slide overlap hb hlen
    have hturns := turns_slide overlap hb hlen
    rw [List.drop_zero] at he hturns
    rw [he] at hturns ⊢
    have hjoined := joined_absorb_cons text hsweep hturns
    split
    · next hnil => exact hnil ▸ hjoined
    · next s body later hcons =>
      rw [hcons] at hjoined
      exact hjoined.extend (Nat.zero_le _) rfl
  · obtain rfl : text = [] := List.eq_nil_of_length_eq_zero (by omega)
    exact Joined.nil

theorem start_of_head?_pieces {p : Span × List Char}
    (h : (pieces budget overlap text).head? = some p) : p.1.start = 0 := by
  rw [pieces] at h
  split at h
  · cases h
  · cases h
    rfl

/-- The text of a piece is what is visible in its window, so it never exceeds the budget. -/
theorem length_body_le (hb : 0 < budget) {p : Span × List Char}
    (hp : p ∈ pieces budget overlap text) : p.2.length ≤ budget := by
  have hlen : 0 < text.length := by
    have := (traces_pieces overlap hb text).bounds p hp
    omega
  obtain ⟨later, he, hsweep⟩ := sweep_slide overlap hb hlen
  rw [List.drop_zero] at he
  have hbody : ∀ q ∈ (absorb text (slide budget overlap 0 0 text)).2, q.2.length ≤ budget := by
    intro q hq
    rw [he] at hq
    obtain ⟨w, hw, hg⟩ := (absorbed_of_sweep hsweep).grown q hq
    calc q.2.length = (trim (w.slice text)).length := by rw [hg.body]
      _ ≤ (w.slice text).length := length_trim_le _
      _ ≤ w.length := List.length_take_le _ _
      _ ≤ budget := length_le_of_mem_slide (he ▸ hw)
  rw [pieces] at hp
  split at hp
  · cases hp
  · next hcons =>
    rw [hcons, List.forall_mem_cons] at hbody
    rcases List.mem_cons.1 hp with rfl | hp
    · exact hbody.1
    · exact hbody.2 p hp

theorem Turn.overlaps (h : Turn budget overlap text w v) (hb : 0 < budget) :
    v.start ≤ w.stop ∧ w.stop - v.start ≤ overlap := by
  have hs : w.start < text.length := by have := h.more; omega
  rw [h.starts, h.ends]
  refine ⟨(following_bounds overlap hb hs).2, ?_⟩
  rw [following]
  omega

end Window

/-- Spans that meet end to end show the text they lead through. -/
theorem Span.flatMap_slice {first : Span} {later : List Span} {stop : Nat}
    (hmeet : (first :: later).IsChain fun p q => p.stop = q.start)
    (hlast : ∀ p, (first :: later).getLast? = some p → p.stop = stop)
    (hb : ∀ p ∈ first :: later, p.start ≤ p.stop ∧ p.stop ≤ stop) (text : List Char) :
    (first :: later).flatMap (fun p => p.slice text) = slice ⟨first.start, stop⟩ text := by
  induction later generalizing first with
  | nil => rw [List.flatMap_singleton, ← hlast first rfl]
  | cons second later ih =>
      obtain ⟨hfirst, hlater⟩ := List.isChain_cons_cons.1 hmeet
      obtain ⟨⟨hle, hstop⟩, hrest⟩ := List.forall_mem_cons.1 hb
      have hall := ih hlater (fun p hp => hlast p (by rwa [List.getLast?_cons_cons])) hrest
      rw [List.flatMap_cons, hall, ← hfirst, slice_append hle hstop]

structure Chunk.Seamless (options : ChunkOptions) (text : String) (chunks : List Chunk) :
    Prop where
  first : ∃ c, chunks.head? = some c ∧ c.start = 0
  last : ∃ c, chunks.getLast? = some c ∧ c.stop = text.length
  overlaps : chunks.IsChain fun a b => b.start ≤ a.stop ∧ a.stop - b.start ≤ options.overlap
  sizes : ∀ c ∈ chunks, c.text.length ≤ options.budget
  whole : options.overlap = 0 → chunks.flatMap (fun c => c.span.slice text.toList) = text.toList

namespace Strategy

variable {options : ChunkOptions} {masking : Sentence.Masking}

theorem map_piece_windows (options : ChunkOptions) (serial : Nat) (text : String)
    (masking : Sentence.Masking) :
    (fixedSize.chunks options serial text masking).map Chunk.piece =
      Window.pieces options.budget options.overlap text.toList :=
  (map_piece_chunks fixedSize options serial text masking).trans (Draft.map_piece_windows options _)

theorem joined_windows (hb : 0 < options.budget) (serial : Nat) (text : String)
    (masking : Sentence.Masking) :
    Window.Joined (Window.Turn options.budget options.overlap text.toList) text.toList.length
      ((fixedSize.chunks options serial text masking).map Chunk.span) := by
  have hspans : (fixedSize.chunks options serial text masking).map Chunk.span =
      (Window.pieces options.budget options.overlap text.toList).map Prod.fst := by
    rw [← map_piece_windows options serial text masking, List.map_map]
    rfl
  rw [hspans]
  exact Window.joined_pieces options.overlap hb text.toList

theorem meets_windows (hb : 0 < options.budget) (serial : Nat) (text : String)
    (masking : Sentence.Masking) :
    (fixedSize.chunks options serial text masking).IsChain fun a b =>
      b.start ≤ a.stop ∧ a.stop - b.start ≤ options.overlap := by
  refine ((List.isChain_map Chunk.span).1 (joined_windows hb serial text masking).chain).imp ?_
  rintro a b ⟨w, v, hturn, _, hstop, hstart, _⟩
  have hoverlaps := hturn.overlaps hb
  rwa [← hstop, ← hstart] at hoverlaps

theorem start_of_head?_windows {serial : Nat} {text : String} {c : Chunk}
    (hc : (fixedSize.chunks options serial text masking).head? = some c) : c.start = 0 := by
  have hpiece := congrArg (Option.map Chunk.piece) hc
  rw [← List.head?_map, map_piece_windows] at hpiece
  exact Window.start_of_head?_pieces hpiece

theorem stop_of_getLast?_windows (hb : 0 < options.budget) {serial : Nat} {text : String}
    {c : Chunk} (hc : (fixedSize.chunks options serial text masking).getLast? = some c) :
    c.stop = text.length := by
  rw [← String.length_toList]
  exact (joined_windows hb serial text masking).last c.span (by rw [List.getLast?_map, hc]; rfl)

theorem length_text_windows (hb : 0 < options.budget) {serial : Nat} {text : String} {c : Chunk}
    (hc : c ∈ fixedSize.chunks options serial text masking) : c.text.length ≤ options.budget := by
  have hpiece := List.mem_map_of_mem (f := Chunk.piece) hc
  rw [map_piece_windows] at hpiece
  rw [← String.length_toList]
  exact Window.length_body_le hb hpiece

theorem bounds_windows (hb : 0 < options.budget) {serial : Nat} {text : String} {c : Chunk}
    (hc : c ∈ fixedSize.chunks options serial text masking) :
    c.start < c.stop ∧ c.stop ≤ text.toList.length := by
  have hpiece := List.mem_map_of_mem (f := Chunk.piece) hc
  rw [map_piece_windows] at hpiece
  exact (Window.traces_pieces options.overlap hb text.toList).bounds _ hpiece

theorem flatMap_slice_windows (hb : 0 < options.budget) (hzero : options.overlap = 0)
    {serial : Nat} {text : String} (hne : fixedSize.chunks options serial text masking ≠ []) :
    (fixedSize.chunks options serial text masking).flatMap (fun c => c.span.slice text.toList) =
      text.toList := by
  have hmeet : ((fixedSize.chunks options serial text masking).map Chunk.span).IsChain
      fun p q => p.stop = q.start := by
    refine (List.isChain_map Chunk.span).2
      ((meets_windows hb serial text masking).imp fun a b hab => ?_)
    simp only [Chunk.span]
    omega
  have hbounds : ∀ p ∈ (fixedSize.chunks options serial text masking).map Chunk.span,
      p.start ≤ p.stop ∧ p.stop ≤ text.toList.length := by
    intro p hp
    obtain ⟨c, hc, rfl⟩ := List.mem_map.1 hp
    exact ⟨(bounds_windows hb hc).1.le, (bounds_windows hb hc).2⟩
  have hlast := (joined_windows hb serial text masking).last
  obtain ⟨c, later, hchunks⟩ := List.exists_cons_of_ne_nil hne
  have hstart : c.start = 0 := start_of_head?_windows (by rw [hchunks, List.head?_cons])
  rw [hchunks] at hmeet hbounds hlast ⊢
  calc (c :: later).flatMap (fun d => d.span.slice text.toList)
      = ((c :: later).map Chunk.span).flatMap (fun p => p.slice text.toList) := by
        rw [List.flatMap_map]
    _ = Span.slice ⟨c.start, text.toList.length⟩ text.toList :=
        Span.flatMap_slice hmeet hlast hbounds _
    _ = text.toList := by rw [hstart]; exact List.take_length

theorem windows_ne_nil (hb : 0 < options.budget) (serial : Nat) {text : String}
    (hv : ∃ c ∈ text.toList, isBlank c = false) :
    fixedSize.chunks options serial text masking ≠ [] := by
  obtain ⟨c, hc, hvisible⟩ := hv
  intro hnil
  have hpieces := map_piece_windows options serial text masking
  rw [hnil] at hpieces
  have htraces := Window.traces_pieces options.overlap hb text.toList
  have hblank := htraces.eq_nil_iff.1 hpieces.symm c hc
  rw [hvisible] at hblank
  cases hblank

/-- The window comes to the end of every text after at most one turn for each of its characters.
The chunks it makes of a text with anything visible leave no gap, share no more than the overlap and
keep to the budget. -/
theorem seamless_windows (hb : 0 < options.budget) (serial : Nat) {text : String}
    (hv : ∃ c ∈ text.toList, isBlank c = false) :
    (Window.slide options.budget options.overlap 0 0 text.toList).length ≤ text.length ∧
      Chunk.Seamless options text (fixedSize.chunks options serial text masking) := by
  have hne : fixedSize.chunks options serial text masking ≠ [] := windows_ne_nil hb serial hv
  have hfirst := List.head?_eq_some_head hne
  have hlast := List.getLast?_eq_some_getLast hne
  refine ⟨?_, ⟨_, hfirst, start_of_head?_windows hfirst⟩,
    ⟨_, hlast, stop_of_getLast?_windows hb hlast⟩, meets_windows hb serial text masking,
    fun c hc => length_text_windows hb hc, fun hzero => flatMap_slice_windows hb hzero hne⟩
  rw [← String.length_toList]
  exact Window.length_slide_le _ _ _ _ _

theorem seamless_windows_among_blanks :
    (∃ c ∈ "     ab. c      d ".toList, isBlank c = false) ∧
      (Window.slide 4 0 0 0 "     ab. c      d ".toList).length ≤ "     ab. c      d ".length ∧
      Chunk.Seamless ⟨4, 0, .fixedSize⟩ "     ab. c      d "
        (fixedSize.chunks ⟨4, 0, .fixedSize⟩ 7 "     ab. c      d ") :=
  have hv : ∃ c ∈ "     ab. c      d ".toList, isBlank c = false := ⟨'a', by decide, by decide⟩
  have hb : 0 < (⟨4, 0, .fixedSize⟩ : ChunkOptions).budget := by decide
  ⟨hv, seamless_windows hb 7 hv⟩

end Strategy

end Retrieval
