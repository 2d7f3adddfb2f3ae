import Mathlib.Data.List.Chain
import Retrieval.Proofs.Passage.Cutting
import Retrieval.Proofs.Passage.Heading

/-!
# Chunks gather sections

Neighbouring sections are joined for as long as they stay within the budget. Beside the joined
sections the proofs carry the sections each was joined from. The chunks of a text with headings so
tile it section by section: they meet at headings, a chunk beyond the budget is a single section,
and no chunk had room for the section behind it.
-/

namespace Retrieval

open Text

variable {budget : Nat} {text : List Char}

namespace Section

/-- Joins sections as `gatherInto` does and keeps what was joined. -/
def gatherGroups (budget : Nat) (current : Section) (held : List Section) :
    List Section → List (Section × List Section)
  | [] => [(current, held)]
  | next :: later =>
      if current.span.length + next.span.length ≤ budget then
        gatherGroups budget ⟨⟨current.span.start, next.span.stop⟩, next.title⟩ (held ++ [next])
          later
      else (current, held) :: gatherGroups budget next [next] later

structure Joins (budget : Nat) (s : Section) (group : List Section) : Prop where
  first : ∃ t, group.head? = some t ∧ s.span.start = t.span.start
  last : ∃ t, group.getLast? = some t ∧ s.span.stop = t.span.stop ∧ s.title = t.title
  single : budget < s.span.length → group.length = 1

/-- Joined sections that stand next to each other: there was no room for the next section. -/
def Borders (budget : Nat) (p q : Section × List Section) : Prop :=
  p.1.span.stop = q.1.span.start ∧
    ∃ t, q.2.head? = some t ∧ budget < p.1.span.length + t.span.length

variable {current next : Section} {held later : List Section} {a b : Nat}

theorem map_fst_gatherGroups (budget : Nat) (current : Section) (held later : List Section) :
    (gatherGroups budget current held later).map Prod.fst = gatherInto budget current later := by
  induction later generalizing current held with
  | nil => rfl
  | cons next later ih =>
      rw [gatherGroups, gatherInto]
      split
      · exact ih _ _
      · exact congrArg (current :: ·) (ih next [next])

theorem flatten_gatherGroups (budget : Nat) (current : Section) (held later : List Section) :
    ((gatherGroups budget current held later).map Prod.snd).flatten = held ++ later := by
  induction later generalizing current held with
  | nil => rw [List.append_nil]; exact List.flatten_singleton
  | cons next later ih =>
      rw [gatherGroups]
      split
      · rw [ih, List.append_assoc, List.singleton_append]
      · rw [List.map_cons, List.flatten_cons, ih, List.singleton_append]

theorem joins_singleton (budget : Nat) (s : Section) : Joins budget s [s] :=
  ⟨⟨s, rfl, rfl⟩, ⟨s, rfl, rfl, rfl⟩, fun _ => rfl⟩

theorem Joins.concat (h : Joins budget current held) (hmeet : current.span.stop = next.span.start)
    (hle : current.span.start ≤ current.span.stop) (hlt : next.span.start ≤ next.span.stop)
    (hroom : current.span.length + next.span.length ≤ budget) :
    Joins budget ⟨⟨current.span.start, next.span.stop⟩, next.title⟩ (held ++ [next]) := by
  obtain ⟨t, ht, hstart⟩ := h.first
  refine ⟨⟨t, by rw [List.head?_append, ht]; rfl, hstart⟩, ⟨next, List.getLast?_concat, rfl, rfl⟩,
    fun hover => ?_⟩
  simp only [Span.length] at hover hroom
  omega

theorem Tiles.join (h : Tiles text a (current :: next :: later) b) :
    Tiles text a (⟨⟨current.span.start, next.span.stop⟩, next.title⟩ :: later) b := by
  obtain ⟨hstart, ⟨i, hi, hvis⟩, hmeet, ⟨j, hj, _⟩, hlater⟩ := h
  refine ⟨hstart, ⟨i, ⟨hi.1, ?_⟩, hvis⟩, hlater⟩
  have := hi.2
  have := hj.1
  have := hj.2
  dsimp only
  omega

theorem joins_gatherGroups (h : Tiles text a (current :: later) b)
    (hj : Joins budget current held) :
    ∀ p ∈ gatherGroups budget current held later, Joins budget p.1 p.2 := by
  induction later generalizing current held a with
  | nil => exact List.forall_mem_singleton.2 hj
  | cons next later ih =>
      have hbounds := h.bounds.2
      have hnext := h.2.2
      rw [gatherGroups]
      split
      · next hroom =>
        refine ih h.join (hj.concat hnext.1.symm ?_ ?_ hroom)
        · exact (hbounds current List.mem_cons_self).2.1.le
        · exact (hbounds next (List.mem_cons_of_mem _ List.mem_cons_self)).2.1.le
      · exact List.forall_mem_cons.2 ⟨hj, ih hnext (joins_singleton budget next)⟩

theorem exists_cons_gatherGroups (current : Section) (hheld : held ≠ []) (later : List Section) :
    ∃ s group others, gatherGroups budget current held later = (s, group) :: others ∧
      s.span.start = current.span.start ∧ group.head? = held.head? := by
  induction later generalizing current held with
  | nil => exact ⟨current, held, [], rfl, rfl, rfl⟩
  | cons next later ih =>
      rw [gatherGroups]
      split
      · obtain ⟨s, group, others, heq, hstart, hhead⟩ :=
          ih ⟨⟨current.span.start, next.span.stop⟩, next.title⟩
            (List.append_ne_nil_of_left_ne_nil hheld [next])
        exact ⟨s, group, others, heq, hstart,
          hhead.trans (List.head?_append_of_ne_nil held hheld)⟩
      · exact ⟨current, held, _, rfl, rfl, rfl⟩

theorem borders_gatherGroups (held : List Section) (h : Tiles text a (current :: later) b) :
    (gatherGroups budget current held later).IsChain (Borders budget) := by
  induction later generalizing current held a with
  | nil => exact List.IsChain.singleton _
  | cons next later ih =>
      rw [gatherGroups]
      split
      · exact ih _ h.join
      · next hroom =>
        have hchain := ih [next] h.2.2
        obtain ⟨s, group, others, heq, hstart, hhead⟩ :=
          exists_cons_gatherGroups next (List.cons_ne_nil next []) later
        rw [heq] at hchain ⊢
        refine List.isChain_cons_cons.2 ⟨⟨?_, next, hhead, not_le.1 hroom⟩, hchain⟩
        rw [hstart]
        exact h.2.2.1.symm

theorem Tiles.stop_of_getLast? {sections : List Section} {s : Section}
    (h : Tiles text a sections b) (hs : sections.getLast? = some s) : s.span.stop = b := by
  induction sections generalizing a with
  | nil => cases hs
  | cons first later ih =>
      cases later with
      | nil =>
          obtain rfl := Option.some.inj hs
          exact h.2.2
      | cons second later => exact ih h.2.2 (List.getLast?_cons_cons ▸ hs)

theorem exists_of_mem_ofHeadings {stop : Nat} {headings : List (Nat × Heading)} {s : Section}
    (hs : s ∈ ofHeadings stop headings) :
    ∃ p ∈ headings, s.span.start = p.1 ∧ s.title = some p.2.title := by
  induction headings with
  | nil => cases hs
  | cons p later ih =>
      rcases List.mem_cons.1 hs with rfl | hs
      · exact ⟨p, List.mem_cons_self, rfl, rfl⟩
      · obtain ⟨q, hq, h⟩ := ih hs
        exact ⟨q, List.mem_cons_of_mem p hq, h⟩

theorem exists_mem_ofHeadings (stop : Nat) {headings : List (Nat × Heading)} {p : Nat × Heading}
    (hp : p ∈ headings) : ∃ s ∈ ofHeadings stop headings, s.span.start = p.1 := by
  induction headings with
  | nil => cases hp
  | cons q later ih =>
      rcases List.mem_cons.1 hp with rfl | hp
      · exact ⟨_, List.mem_cons_self, rfl⟩
      · obtain ⟨s, hs, h⟩ := ih hp
        exact ⟨s, List.mem_cons_of_mem _ hs, h⟩

/-- Before the first heading there are only blanks, or a section without a title. -/
theorem ofText_of_all_eq {first : Nat × Heading} {later : List (Nat × Heading)}
    (hall : Heading.all text = first :: later) :
    (ofText text = ofHeadings text.length (first :: later) ∧ ∀ i < first.1, ¬ Visible text i) ∨
      ofText text = ⟨⟨0, first.1⟩, none⟩ :: ofHeadings text.length (first :: later) := by
  have hlead : text.take first.1 = Span.slice ⟨0, first.1⟩ text := rfl
  rw [ofText, hall]
  dsimp only
  rw [hlead]
  split
  · next hblank =>
    refine Or.inl ⟨rfl, fun i hi => ?_⟩
    exact Span.trim_slice_eq_nil_iff.1 (List.isEmpty_iff.1 hblank) i ⟨Nat.zero_le i, hi⟩
  · exact Or.inr rfl

def AtHit (text : List Char) (s : Section) : Prop :=
  ∃ h ∈ Heading.pattern.hits text,
    s.span.start = h.start ∧ s.title = some (trim (h.parts[2]?.getD []))

/-- The first section may be text before the first heading; all others begin with a heading. -/
theorem exists_cons_ofText {first : Pattern.Hit} {later : List Pattern.Hit}
    (hhits : Heading.pattern.hits text = first :: later) :
    ∃ s rest, ofText text = s :: rest ∧ (s.span.start = 0 ∧ s.title = none ∨ s.AtHit text) ∧
      (s.span.start = 0 ∨ s.span.start = first.start ∧ ∀ i < first.start, ¬ Visible text i) ∧
      ∀ t ∈ rest, t.AtHit text := by
  have hall := Heading.all_eq_hits text
  have hheaded : ∀ s ∈ ofHeadings text.length (Heading.all text), s.AtHit text := by
    intro s hs
    obtain ⟨p, hp, hstart, htitle⟩ := exists_of_mem_ofHeadings hs
    rw [hall] at hp
    obtain ⟨h, hm, rfl⟩ := List.mem_map.1 hp
    exact ⟨h, hm, hstart, htitle⟩
  rw [hall, hhits, List.map_cons] at hheaded
  rw [hhits, List.map_cons] at hall
  rcases ofText_of_all_eq hall with ⟨hsections, hblank⟩ | hsections
  · obtain ⟨hs, hrest⟩ := List.forall_mem_cons.1 hheaded
    exact ⟨_, _, hsections, Or.inr hs, Or.inr ⟨rfl, hblank⟩, hrest⟩
  · exact ⟨_, _, hsections, Or.inl ⟨rfl, rfl⟩, Or.inl rfl, hheaded⟩

/-- Joined sections, each with those it was joined from, that tile a text with headings. -/
structure Gathers (budget : Nat) (text : List Char) (groups : List (Section × List Section)) :
    Prop where
  sections : (groups.map Prod.snd).flatten = ofText text
  headed : ∀ s ∈ ofText text, s.span.start = 0 ∧ s.title = none ∨ s.AtHit text
  heads : ∀ h ∈ Heading.pattern.hits text, ∃ s ∈ ofText text, s.span.start = h.start
  joins : ∀ p ∈ groups, p.1.Joins budget p.2
  borders : groups.IsChain (Borders budget)
  first : ∃ p, groups.head? = some p ∧ (p.1.span.start = 0 ∨
    ∃ h, (Heading.pattern.hits text).head? = some h ∧ p.1.span.start = h.start ∧
      ∀ i < h.start, ¬ Visible text i)
  last : ∃ p, groups.getLast? = some p ∧ p.1.span.stop = text.length
  inner : ∀ p ∈ groups.tail, ∃ h ∈ Heading.pattern.hits text, p.1.span.start = h.start

theorem exists_of_mem_hits {h : Pattern.Hit} (hm : h ∈ Heading.pattern.hits text) :
    ∃ s ∈ ofText text, s.span.start = h.start := by
  have hall := Heading.all_eq_hits text
  obtain ⟨first, later, hhits⟩ := List.exists_cons_of_ne_nil (List.ne_nil_of_mem hm)
  rw [hhits] at hm
  rw [hhits, List.map_cons] at hall
  obtain ⟨s, hs, hstart⟩ : ∃ s ∈ ofHeadings text.length (Heading.ofHit first ::
      later.map Heading.ofHit), s.span.start = h.start :=
    exists_mem_ofHeadings text.length (List.mem_map_of_mem hm : Heading.ofHit h ∈ _)
  rcases ofText_of_all_eq hall with ⟨hsections, _⟩ | hsections
  · exact ⟨s, hsections ▸ hs, hstart⟩
  · exact ⟨s, hsections ▸ List.mem_cons_of_mem _ hs, hstart⟩

theorem gathers_of_hits (budget : Nat) (h : Heading.pattern.hits text ≠ []) :
    ∃ groups, groups.map Prod.fst = gather budget (ofText text) ∧ Gathers budget text groups := by
  obtain ⟨first, later, hhits⟩ := List.exists_cons_of_ne_nil h
  obtain ⟨s, rest, hsections, hheaded, hstart, hlater⟩ := exists_cons_ofText hhits
  obtain ⟨a, htiles⟩ : ∃ a, Tiles text a (s :: rest) text.length := by
    rcases tiles_ofText text with hnone | ⟨a, htiles, _⟩
    · rw [hsections] at hnone
      cases hnone
    · exact ⟨a, hsections ▸ htiles⟩
  have hjoins := joins_gatherGroups htiles (joins_singleton budget s)
  have hfst := map_fst_gatherGroups budget s [s] rest
  have hflatten := flatten_gatherGroups budget s [s] rest
  obtain ⟨m, group, others, hgroups, hm, hhead⟩ : ∃ m group others,
      gatherGroups budget s [s] rest = (m, group) :: others ∧ m.span.start = s.span.start ∧
        group.head? = [s].head? := exists_cons_gatherGroups s (List.cons_ne_nil s []) rest
  refine ⟨gatherGroups budget s [s] rest, by rw [hfst, hsections]; rfl, ?_⟩
  refine ⟨?_, ?_, fun _ => exists_of_mem_hits, hjoins, borders_gatherGroups [s] htiles, ?_, ?_, ?_⟩
  · rw [hflatten, hsections, List.singleton_append]
  · rw [hsections]
    exact List.forall_mem_cons.2 ⟨hheaded, fun t ht => Or.inr (hlater t ht)⟩
  · refine ⟨(m, group), by rw [hgroups]; rfl, ?_⟩
    rw [hm, hhits]
    exact hstart.imp_right fun h => ⟨first, rfl, h⟩
  · have hne : gatherGroups budget s [s] rest ≠ [] := by
      rw [hgroups]
      exact List.cons_ne_nil _ _
    refine ⟨_, List.getLast?_eq_some_getLast hne, ?_⟩
    refine (tiles_gatherInto budget htiles).stop_of_getLast? ?_
    rw [← hfst, List.getLast?_map, List.getLast?_eq_some_getLast hne]
    rfl
  · -- the first section is in the first group, so all other groups begin with a heading
    rw [hgroups] at hflatten hjoins ⊢
    obtain ⟨held, rfl⟩ : ∃ held, group = s :: held := List.head?_eq_some_iff.1 hhead
    intro p hp
    obtain ⟨t, ht, hpt⟩ := (hjoins p (List.mem_cons_of_mem _ hp)).first
    have hmem : t ∈ rest := by
      have hrest : held ++ (others.map Prod.snd).flatten = rest :=
        (List.cons_inj_right s).1 hflatten
      rw [← hrest]
      refine List.mem_append_right _ (List.mem_flatten.2 ⟨p.2, List.mem_map_of_mem hp, ?_⟩)
      exact List.mem_of_mem_head? ht
    obtain ⟨h, hm, hstart, _⟩ := hlater t hmem
    exact ⟨h, hm, hpt.trans hstart⟩

/-- What a chunk takes over from a section: its span, and its title unless that is empty. -/
def traits (s : Section) : Span × Option Value :=
  (s.span, (s.title.filter (· ≠ [])).map fun title => .text (String.ofList title))

end Section

namespace Chunk

/-- The span of a chunk, and the heading that its metadata gives. -/
def traits (c : Chunk) : Span × Option Value :=
  (c.span, c.metadata.bind fun fields => fields.get? Key.heading)

theorem traits_ofDraft (index serial : Nat) (d : Draft) :
    (ofDraft index serial d).traits =
      (d.span, (d.title.filter (· ≠ [])).map fun title => .text (String.ofList title)) := by
  obtain ⟨span, body, strategy, title⟩ := d
  refine Prod.ext rfl ?_
  rcases title with _ | title
  · rfl
  · cases title with
    | nil => rfl
    | cons c rest => exact Table.get?_set_self _ _ _

theorem map_traits_ofDrafts (index serial : Nat) (text : List Char) (sections : List Section) :
    (ofDrafts index serial (sections.map (Draft.ofSection text))).map traits =
      sections.map Section.traits := by
  induction sections generalizing index serial with
  | nil => rfl
  | cons s sections ih =>
      rw [List.map_cons, ofDrafts, List.map_cons, traits_ofDraft, ih, List.map_cons]
      rfl

end Chunk

namespace Strategy

theorem map_traits_chunks (options : ChunkOptions) (serial : Nat) {text : String}
    (masking : Sentence.Masking) (h : Heading.pattern.hits text.toList ≠ []) :
    (markdownAware.chunks options serial text masking).map Chunk.traits =
      (Section.gather options.budget (Section.ofText text.toList)).map Section.traits := by
  obtain ⟨first, later, hhits⟩ := List.exists_cons_of_ne_nil h
  obtain ⟨s, rest, hsections, _⟩ := Section.exists_cons_ofText hhits
  have hdrafts : markdownAware.drafts options text.toList masking =
      (Section.gather options.budget (Section.ofText text.toList)).map
        (Draft.ofSection text.toList) := by
    rw [drafts, Draft.sections, hsections]
  rw [chunks, hdrafts, Chunk.map_traits_ofDrafts]

/-- The chunks of a text with headings are joined sections that tile it. -/
theorem sections_tile (options : ChunkOptions) (serial : Nat) {text : String}
    {masking : Sentence.Masking}
    (h : Heading.pattern.hits text.toList ≠ []) :
    ∃ groups : List (Section × List Section),
      (markdownAware.chunks options serial text masking).map Chunk.traits =
        groups.map (fun p => p.1.traits) ∧
      Section.Gathers options.budget text.toList groups := by
  obtain ⟨groups, hfst, hgathers⟩ := Section.gathers_of_hits options.budget h
  refine ⟨groups, ?_, hgathers⟩
  rw [map_traits_chunks options serial masking h, ← hfst, List.map_map]
  rfl

/-- The text before the first heading is joined with the section behind it, whose title the chunk
has; there is no room for the next one. -/
theorem sections_tile_short_budget :
    let text := "Intro\n# A\nOne.\n## B\nTwo"
    Heading.pattern.hits text.toList ≠ [] ∧
      (markdownAware.chunks ⟨16, 0, .markdownAware⟩ 0 text).map Chunk.traits =
        [(⟨0, 15⟩, some (.text "A")), (⟨15, 23⟩, some (.text "B"))] ∧
      ∃ groups : List (Section × List Section),
        groups.map (fun p => p.1.traits) =
          [(⟨0, 15⟩, some (.text "A")), (⟨15, 23⟩, some (.text "B"))] ∧
        Section.Gathers 16 text.toList groups := by
  intro text
  have h : Heading.pattern.hits text.toList ≠ [] := by decide
  have hgathered : Section.gather 16 (Section.ofText text.toList) =
      [⟨⟨0, 15⟩, some ['A']⟩, ⟨⟨15, 23⟩, some ['B']⟩] := by decide
  have hchunks : (markdownAware.chunks ⟨16, 0, .markdownAware⟩ 0 text).map Chunk.traits =
      [(⟨0, 15⟩, some (.text "A")), (⟨15, 23⟩, some (.text "B"))] := by
    rw [map_traits_chunks _ _ _ h, hgathered]
    rfl
  obtain ⟨groups, htraits, hgathers⟩ := sections_tile ⟨16, 0, .markdownAware⟩ 0 h
  exact ⟨h, hchunks, groups, htraits.symm.trans hchunks, hgathers⟩

end Strategy

end Retrieval
