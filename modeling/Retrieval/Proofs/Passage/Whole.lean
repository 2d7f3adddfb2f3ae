import Retrieval.Proofs.Passage.Cutting
import Retrieval.Proofs.Passage.Paragraph
import Retrieval.Proofs.Passage.Sentence

/-!
# Sentences and paragraphs stay whole

What is packed is told apart from how it is found: sentences end where the text and the order of
masking end them, and paragraphs part at blank lines. Chunks of sentences are packed from all
sentences of the text, and chunks of paragraphs from the paragraphs that fit the budget and the
sentences of those that do not.
-/

namespace Retrieval

open Text

variable {masking : Sentence.Masking} {budget : Nat} {range : Span} {text : List Char}

namespace Sentence

/-- The sentences of a range under a masking. -/
structure Divided (masking : Masking) (range : Span) (text : List Char) (spans : List Span) :
    Prop extends Divides range text spans where
  masked : spans = spansOf masking.order range text

theorem divided_spansWithin (masking : Masking) (range : Span) (text : List Char) :
    Divided masking range text (spansWithin masking range text) :=
  ⟨divides_spansOf masking.perm range text, rfl⟩

theorem spansWithin_whole (masking : Masking) (text : List Char) :
    spansWithin masking ⟨0, text.length⟩ text = spans masking text := by
  have hslice : Span.slice ⟨0, text.length⟩ text = text := List.take_length
  rw [spansWithin, hslice]
  exact List.map_id _

end Sentence

namespace Paragraph

/-- What paragraphs are packed from: in order, the paragraphs within the budget and all sentences of
the longer ones. -/
structure Broken (masking : Sentence.Masking) (budget : Nat) (text : List Char)
    (units : List Span) : Prop where
  parts : Parts (Visible text) (fun i j => 2 ≤ lineEnds text i j) (spans text)
  ordered : units.Pairwise fun a b => a.stop ≤ b.start
  mem_iff : ∀ s, s ∈ units ↔ s ∈ spans text ∧ s.length ≤ budget ∨
    ∃ p ∈ spans text, budget < p.length ∧
      ∃ sentences, Sentence.Divided masking p text sentences ∧ s ∈ sentences

theorem broken_units (masking : Sentence.Masking) (budget : Nat) (text : List Char) :
    Broken masking budget text (units masking budget text) := by
  refine ⟨parts_spans text, (units_units masking budget text).ordered, fun s => ?_⟩
  rw [units, List.mem_flatMap]
  constructor
  · rintro ⟨p, hp, hs⟩
    split at hs
    · next hlong =>
      exact Or.inr ⟨p, hp, hlong, _, Sentence.divided_spansWithin masking p text, hs⟩
    · next hshort =>
      rw [List.mem_singleton.1 hs]
      exact Or.inl ⟨hp, not_lt.1 hshort⟩
  · rintro (⟨hs, hfits⟩ | ⟨p, hp, hlong, sentences, hsentences, hs⟩)
    · refine ⟨s, hs, ?_⟩
      rw [if_neg (not_lt.2 hfits)]
      exact List.mem_singleton_self s
    · refine ⟨p, hp, ?_⟩
      rw [hsentences.masked] at hs
      rw [if_pos hlong]
      exact hs

theorem Broken.sentence_of_long {units : List Span} (h : Broken masking budget text units)
    {s : Span} (hs : s ∈ units) (hlong : budget < s.length) :
    ∃ p ∈ spans text, budget < p.length ∧
      ∃ sentences, Sentence.Divided masking p text sentences ∧ s ∈ sentences :=
  ((h.mem_iff s).1 hs).resolve_left fun hfits => absurd hfits.2 (not_le.2 hlong)

end Paragraph

theorem Draft.map_span_ranges (strategy : Strategy) (text : List Char) (ranges : List Span) :
    (ranges.map (ofRange strategy text)).map span = ranges := by
  rw [List.map_map]
  exact List.map_id ranges

/-- Sentences and paragraphs are never split: each chunk runs from the start of one unit to the end
of another, is longer than the budget only if it is a single sentence, is closed only when the next
unit finds no room in it, and lends the next chunk as many units as the overlap and the budget
allow, but never all of its own. -/
theorem Chunk.lends_units (masking : Sentence.Masking) (options : ChunkOptions) (serial : Nat)
    (text : String) :
    (∃ sentences, Sentence.Divided masking ⟨0, text.toList.length⟩ text.toList sentences ∧
      Packing.Lends options.budget options.overlap sentences
        ((Strategy.sentence.chunks options serial text masking).map span)) ∧
    ∃ units, Paragraph.Broken masking options.budget text.toList units ∧
      Packing.Lends options.budget options.overlap units
        ((Strategy.paragraph.chunks options serial text masking).map span) ∧
      ∀ c ∈ Strategy.paragraph.chunks options serial text masking,
        options.budget < c.span.length →
          ∃ p ∈ Paragraph.spans text.toList, options.budget < p.length ∧
            ∃ sentences, Sentence.Divided masking p text.toList sentences ∧
              c.span ∈ sentences := by
  have hsentences : (Strategy.sentence.chunks options serial text masking).map span =
      Packing.pack options.budget options.overlap (Sentence.spans masking text.toList) :=
    (Strategy.map_span_chunks _ options serial text masking).trans (Draft.map_span_ranges _ _ _)
  have hparagraphs : (Strategy.paragraph.chunks options serial text masking).map span =
      Packing.pack options.budget options.overlap
        (Paragraph.units masking options.budget text.toList) :=
    (Strategy.map_span_chunks _ options serial text masking).trans (Draft.map_span_ranges _ _ _)
  have hbroken := Paragraph.broken_units masking options.budget text.toList
  have hunits := Packing.lends_pack options.budget options.overlap
    (Paragraph.units_units masking options.budget text.toList).toOrdered
  rw [hsentences, hparagraphs]
  constructor
  · refine ⟨_, Sentence.divided_spansWithin masking ⟨0, text.toList.length⟩ text.toList, ?_⟩
    rw [Sentence.spansWithin_whole]
    exact Packing.lends_pack _ _ (Sentence.units_spansBy _ _).toOrdered
  · refine ⟨_, hbroken, hunits, fun c hc hlong => ?_⟩
    have hmem := hparagraphs ▸ List.mem_map_of_mem hc
    exact hbroken.sentence_of_long ((hunits.within c.span hmem).resolve_left (not_le.2 hlong)) hlong

/-- A sentence over the budget is a chunk of its own, and a short paragraph is lent to the chunk
behind it. -/
theorem Chunk.lends_units_masking_reversed :
    let masking : Sentence.Masking := ⟨_, List.reverse_perm Sentence.abbreviations⟩
    let options : ChunkOptions := ⟨15, 11, .paragraph⟩
    let text := "Ask, i.e.g. Tom. Go.\n\nSo he.\n\nEnd."
    (Strategy.paragraph.chunks options 0 text masking).map span =
        [⟨0, 16⟩, ⟨17, 28⟩, ⟨22, 34⟩] ∧
      ∃ units, Paragraph.Broken masking 15 text.toList units ∧
        Packing.Lends 15 11 units [⟨0, 16⟩, ⟨17, 28⟩, ⟨22, 34⟩] := by
  intro masking options text
  have hspans : (Strategy.paragraph.chunks options 0 text masking).map span =
      [⟨0, 16⟩, ⟨17, 28⟩, ⟨22, 34⟩] := by decide +kernel
  obtain ⟨-, units, hbroken, hlends, -⟩ := lends_units masking options 0 text
  exact ⟨hspans, units, hbroken, hspans ▸ hlends⟩

end Retrieval
