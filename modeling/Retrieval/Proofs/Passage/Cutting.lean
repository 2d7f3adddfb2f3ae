import Retrieval.Passage.Chunk
import Retrieval.Proofs.Passage.Section
import Retrieval.Proofs.Passage.Window

/-!
# Every strategy traces back to the text

Windows, packed sentences, packed paragraphs and sections meet one contract, and numbering the
drafts as chunks keeps it.
-/

namespace Retrieval

open Text

variable {options : ChunkOptions}

def Draft.piece (d : Draft) : Span × List Char := (d.span, d.body)

def Chunk.piece (c : Chunk) : Span × List Char := (⟨c.start, c.stop⟩, c.text.toList)

namespace Draft

theorem map_piece_windows (options : ChunkOptions) (text : List Char) :
    (windows options text).map piece = Window.pieces options.budget options.overlap text := by
  rw [windows, List.map_map]
  exact List.map_id _

theorem traces_windows (hb : 0 < options.budget) (text : List Char) :
    Traces text ((windows options text).map piece) := by
  rw [map_piece_windows]
  exact Window.traces_pieces options.overlap hb text

theorem traces_ranges {text : List Char} {spans : List Span} (hu : Units (Visible text) spans)
    (budget overlap : Nat) (strategy : Strategy) :
    Traces text (((Packing.pack budget overlap spans).map (ofRange strategy text)).map piece) := by
  rw [List.map_map]
  exact .of_packed hu
    (Packing.packed_pack budget overlap (fun s hs => (hu.bounds s hs).1) hu.ordered)

theorem traces_sections (hb : 0 < options.budget) (text : List Char) :
    Traces text ((sections options text).map piece) := by
  rw [sections]
  rcases Section.tiles_ofText text with hnone | ⟨a, htiles, hblank⟩
  · rw [hnone]
    exact traces_windows hb text
  · split
    · exact traces_windows hb text
    · rw [List.map_map]
      exact (htiles.gather options.budget).traces hblank

end Draft

theorem Strategy.traces_drafts (hb : 0 < options.budget) (strategy : Strategy)
    (text : List Char) (masking : Sentence.Masking) :
    Traces text ((strategy.drafts options text masking).map Draft.piece) := by
  cases strategy with
  | fixedSize => exact Draft.traces_windows hb text
  | sentence => exact Draft.traces_ranges (Sentence.units_spansBy _ text) _ _ _
  | paragraph => exact Draft.traces_ranges (Paragraph.units_units _ _ text) _ _ _
  | markdownAware => exact Draft.traces_sections hb text

namespace Chunk

@[simp] theorem piece_ofDraft (index serial : Nat) (d : Draft) :
    (ofDraft index serial d).piece = d.piece := by
  simp [piece, ofDraft, Draft.piece]

theorem index_ofDraft (index serial : Nat) (d : Draft) :
    ∃ fields, (ofDraft index serial d).metadata = some fields ∧
      fields.get? Key.chunkIndex = some (.int index) := by
  rw [ofDraft]
  dsimp only
  split
  · refine ⟨_, rfl, ?_⟩
    rw [Table.get?_set_of_ne (by decide)]
    rfl
  · exact ⟨_, rfl, rfl⟩

theorem map_piece_ofDrafts (index serial : Nat) (drafts : List Draft) :
    (ofDrafts index serial drafts).map piece = drafts.map Draft.piece := by
  induction drafts generalizing index serial with
  | nil => rfl
  | cons d later ih => rw [ofDrafts, List.map_cons, List.map_cons, piece_ofDraft, ih]

theorem getElem?_ofDrafts (index serial i : Nat) (drafts : List Draft) :
    (ofDrafts index serial drafts)[i]? = drafts[i]?.map (ofDraft (index + i) (serial + i)) := by
  induction drafts generalizing index serial i with
  | nil => rfl
  | cons d later ih =>
      cases i with
      | zero => rfl
      | succ i =>
          rw [ofDrafts, List.getElem?_cons_succ, List.getElem?_cons_succ, ih, Nat.add_right_comm,
            Nat.add_right_comm serial, Nat.add_assoc, Nat.add_assoc]

def span (c : Chunk) : Span := ⟨c.start, c.stop⟩

/-- Whatever the strategy and the order in which abbreviations are masked, the text is cut into
chunks that are found in it again at their positions, that are numbered in order and that leave
nothing visible out. -/
theorem cut_traces (hb : 0 < options.budget) (serial : Nat) (text : String)
    (masking : Sentence.Masking) :
    ∃ chunks, cut .standard options serial text masking = .ok chunks ∧
      Traces text.toList (chunks.map piece) ∧
      (∀ (i : Nat) (c : Chunk), chunks[i]? = some c → ∃ fields, c.metadata = some fields ∧
        fields.get? Key.chunkIndex = some (.int i)) ∧
      (chunks = [] ↔ ∀ c ∈ text.toList, isBlank c = true) := by
  have htraces := Strategy.traces_drafts hb options.strategy text.toList masking
  rw [← map_piece_ofDrafts 0 serial] at htraces
  refine ⟨_, ?_, htraces, fun i c hc => ?_, ?_⟩
  · rw [cut, StrategyRegistry.select_standard]
    rfl
  · rw [getElem?_ofDrafts, Option.map_eq_some_iff, Nat.zero_add] at hc
    obtain ⟨d, _, rfl⟩ := hc
    exact index_ofDraft i _ d
  · rw [← htraces.eq_nil_iff, List.map_eq_nil_iff]

theorem cut_traces_overlap_beyond_budget :
    0 < 12 ∧ Sentence.abbreviations.reverse.Perm Sentence.abbreviations ∧
      ∃ chunks, cut .standard ⟨12, 40, .paragraph⟩ 7 "One. See i.e.g. three.\n\nFour"
          ⟨_, List.reverse_perm _⟩ = .ok chunks ∧
        Traces "One. See i.e.g. three.\n\nFour".toList (chunks.map piece) ∧
        (∀ (i : Nat) (c : Chunk), chunks[i]? = some c → ∃ fields, c.metadata = some fields ∧
          fields.get? Key.chunkIndex = some (.int i)) ∧
        (chunks = [] ↔ ∀ c ∈ "One. See i.e.g. three.\n\nFour".toList, isBlank c = true) :=
  ⟨by decide, List.reverse_perm _, cut_traces (by decide) 7 _ _⟩

end Chunk

namespace Strategy

theorem map_piece_chunks (strategy : Strategy) (options : ChunkOptions) (serial : Nat)
    (text : String) (masking : Sentence.Masking) :
    (strategy.chunks options serial text masking).map Chunk.piece =
      (strategy.drafts options text.toList masking).map Draft.piece :=
  Chunk.map_piece_ofDrafts 0 serial _

theorem map_span_chunks (strategy : Strategy) (options : ChunkOptions) (serial : Nat)
    (text : String) (masking : Sentence.Masking) :
    (strategy.chunks options serial text masking).map Chunk.span =
      (strategy.drafts options text.toList masking).map Draft.span := by
  have h := congrArg (List.map Prod.fst) (map_piece_chunks strategy options serial text masking)
  rwa [List.map_map, List.map_map] at h

end Strategy

end Retrieval
