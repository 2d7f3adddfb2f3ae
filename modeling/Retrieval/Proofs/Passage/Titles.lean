import Retrieval.Proofs.Passage.Joining

/-!
# The title of a chunk is the last in it

A heading stands on one line: number signs, blanks and a title. Since the blanks may cross line
ends, a line of number signs alone takes its title from the next line that is not blank, whatever
that is. A chunk is called what the last heading in it says.
-/

namespace Retrieval

open Text Pattern

namespace Heading

variable {text : List Char} {i j : Nat} {title : List Char}

def OpensLine (text : List Char) (i : Nat) : Prop := ∀ c ∈ (text.take i).getLast?, c = '\n'

/-- One to six number signs, and blanks behind them. -/
structure Marker (signs : Nat) (blanks : List Char) : Prop where
  least : 1 ≤ signs
  most : signs ≤ 6
  nonempty : blanks ≠ []
  blank : ∀ c ∈ blanks, isBlank c = true

/-- A line of number signs, blanks and a title. -/
structure Line (text : List Char) (i : Nat) (title : List Char) : Prop where
  opens : OpensLine text i
  shape : ∃ signs blanks rest, Marker signs blanks ∧
    upToLineEnd (text.drop i) = List.replicate signs '#' ++ (blanks ++ rest) ∧ trim rest = title
  shown : title ≠ []

/-- A line of number signs alone, and what stands on the next line that is not blank. -/
structure Borrows (text : List Char) (i k : Nat) (title : List Char) : Prop where
  opens : OpensLine text i
  shape : ∃ signs blanks, Marker signs blanks ∧ '\n' ∈ blanks ∧
    text.drop i = List.replicate signs '#' ++ (blanks ++ text.drop k)
  title_eq : trim (upToLineEnd (text.drop k)) = title
  shown : title ≠ []

structure LastLine (text : List Char) (i stop : Nat) (title : List Char) : Prop where
  line : Line text i title
  within : i + (upToLineEnd (text.drop i)).length ≤ stop
  last : ∀ j t, i < j → j < stop → ¬ Line text j t

/-- A line of number signs alone that gets its title before `stop`, behind all lines with titles of
their own but for the line it gets its title from. -/
structure LastBorrowed (text : List Char) (i k stop : Nat) (title : List Char) : Prop where
  borrows : Borrows text i k title
  within : k + (upToLineEnd (text.drop k)).length ≤ stop
  last : ∀ j t, i < j → j < stop → Line text j t → j = k

theorem not_mem_upToLineEnd (text : List Char) : '\n' ∉ upToLineEnd text := by
  intro h
  have hkind := List.mem_takeWhile_imp h
  simp at hkind

theorem upToLineEnd_append {line : List Char} (h : '\n' ∉ line) (later : List Char) :
    upToLineEnd (line ++ later) = line ++ upToLineEnd later := by
  refine List.takeWhile_append_of_pos fun c hc => ?_
  have hne : c ≠ '\n' := fun he => h (he ▸ hc)
  simpa using hne

theorem exists_of_upToLineEnd_eq {front rest : List Char} (h : upToLineEnd text = front ++ rest) :
    ∃ later, text = front ++ later ∧ upToLineEnd later = rest := by
  have hfront : '\n' ∉ front := fun hm =>
    not_mem_upToLineEnd text (h ▸ List.mem_append_left rest hm)
  obtain ⟨later, hlater⟩ : front <+: text :=
    (h ▸ List.prefix_append front rest : front <+: upToLineEnd text).trans
      (List.takeWhile_prefix _)
  refine ⟨later, hlater.symm, ?_⟩
  rwa [← hlater, upToLineEnd_append hfront, List.append_cancel_left_eq] at h

theorem reads_restOfLine_iff {before ahead : List Char} {parts : List (List Char)} :
    Reads restOfLine before ahead parts ↔
      upToLineEnd ahead ≠ [] ∧ parts = [upToLineEnd ahead] := by
  constructor
  · intro h
    obtain ⟨taken, rest, _, rfl, rfl, hkind, hleast, -, hlook⟩ := reads_take_iff.1 h
    obtain ⟨hend, hdone⟩ := reads_look_iff.1 hlook
    obtain rfl := reads_nil_iff.1 hdone
    have hline : '\n' ∉ taken := fun hm => by simpa using hkind _ hm
    have hnil : upToLineEnd rest = [] := by
      cases rest with
      | nil => rfl
      | cons c rest => exact List.takeWhile_cons_of_neg (by simpa using hend)
    rw [upToLineEnd_append hline, hnil, List.append_nil]
    exact ⟨List.ne_nil_of_length_pos hleast, rfl⟩
  · rintro ⟨hne, rfl⟩
    refine reads_of_read? ?_
    rw [read?_restOfLine, if_neg hne]

theorem reads_pattern_iff {before ahead : List Char} {parts : List (List Char)} :
    Reads pattern before ahead parts ↔ before.head?.all (· == '\n') = true ∧
      ∃ signs blanks later, Marker signs blanks ∧ upToLineEnd later ≠ [] ∧
        ahead = List.replicate signs '#' ++ (blanks ++ later) ∧
        parts = [List.replicate signs '#', blanks, upToLineEnd later] := by
  rw [pattern, reads_look_iff, signsThenTitle, reads_take_iff]
  refine and_congr_right fun _ => ⟨?_, ?_⟩
  · rintro ⟨signs, _, _, rfl, rfl, hsigns, hleast, hmost, htitle⟩
    obtain ⟨blanks, later, _, rfl, rfl, hblanks, hblank, -, htitle⟩ := reads_take_iff.1 htitle
    obtain ⟨hne, rfl⟩ := reads_restOfLine_iff.1 htitle
    have hreplicate : signs = List.replicate signs.length '#' :=
      List.eq_replicate_iff.2 ⟨rfl, fun c hc => by simpa using hsigns c hc⟩
    have hmarker : Marker signs.length blanks :=
      ⟨hleast, hmost 6 rfl, List.ne_nil_of_length_pos hblank, hblanks⟩
    exact ⟨signs.length, blanks, later, hmarker, hne, by rw [← hreplicate], by rw [← hreplicate]⟩
  · rintro ⟨signs, blanks, later, hmarker, hne, rfl, rfl⟩
    refine ⟨_, _, _, rfl, rfl, ?_, ?_, ?_, ?_⟩
    · exact fun c hc => by simpa using (List.mem_replicate.1 hc).2
    · rw [List.length_replicate]
      exact hmarker.least
    · intro n hn
      obtain rfl := Option.some.inj hn
      rw [List.length_replicate]
      exact hmarker.most
    · exact reads_take_iff.2 ⟨_, _, _, rfl, rfl, hmarker.blank,
        List.length_pos_of_ne_nil hmarker.nonempty, fun n hn => absurd hn (Option.not_mem_none n),
        reads_restOfLine_iff.2 ⟨hne, rfl⟩⟩

theorem opensLine_iff :
    (text.take i).reverse.head?.all (· == '\n') = true ↔ OpensLine text i := by
  rw [List.head?_reverse, OpensLine]
  cases (text.take i).getLast? <;> simp

theorem getElem?_pred_of_opensLine (h : OpensLine text j) (hij : i < j) (hj : j ≤ text.length) :
    text[j - 1]? = some '\n' := by
  have hlast : (text.take j).getLast? = text[j - 1]? := by
    rw [List.getLast?_eq_getElem?, List.length_take_of_le hj, List.getElem?_take_of_lt (by omega)]
  have hpred : text[j - 1]? = some text[j - 1] := List.getElem?_eq_getElem (by omega)
  rw [OpensLine, hlast] at h
  rw [hpred, h _ hpred]

/-- A line with a title is a hit of the search, or lies inside one. -/
theorem Line.exists_hit (h : Line text i title) :
    ∃ g ∈ pattern.hits text, g.start ≤ i ∧ (i = g.start ∨ i < g.span.stop) := by
  obtain ⟨signs, blanks, rest, hmarker, hline, htitle⟩ := h.shape
  rw [← List.append_assoc] at hline
  obtain ⟨later, hahead, hrest⟩ := exists_of_upToLineEnd_eq hline
  have hlt : i < text.length := by
    by_contra hout
    rw [List.drop_eq_nil_of_le (not_lt.1 hout)] at hline
    have hnil := (List.append_eq_nil_iff.1 (List.append_eq_nil_iff.1 hline.symm).1).2
    exact hmarker.nonempty hnil
  refine exists_mem_hits hlt (reads_pattern_iff.2 ⟨opensLine_iff.2 h.opens, signs, blanks, later,
    hmarker, ?_, hahead.trans (List.append_assoc _ _ _), rfl⟩)
  rintro hnil
  rw [← hrest, hnil] at htitle
  exact h.shown htitle.symm

theorem Line.sign (h : Line text i title) : text[i]? = some '#' := by
  obtain ⟨signs, blanks, rest, hmarker, hline, -⟩ := h.shape
  obtain ⟨later, hahead, -⟩ := exists_of_upToLineEnd_eq hline
  obtain ⟨signs, rfl⟩ := Nat.exists_eq_add_of_le' hmarker.least
  have hfirst : text[i]? = (text.drop i)[0]? := by rw [List.getElem?_drop, Nat.add_zero]
  rw [hfirst, hahead]
  rfl

/-- A hit of the search: number signs, blanks up to a position, and the line from there on. -/
structure Reading (text : List Char) (h : Hit) (signs : Nat) (blanks : List Char) (k : Nat) :
    Prop where
  opens : OpensLine text h.start
  marker : Marker signs blanks
  ahead : text.drop h.start = List.replicate signs '#' ++ (blanks ++ text.drop k)
  behind : k = h.start + signs + blanks.length
  stop : h.span.stop = k + (upToLineEnd (text.drop k)).length
  title : h.parts[2]?.getD [] = upToLineEnd (text.drop k)

theorem exists_reading {h : Hit} (hm : h ∈ pattern.hits text) :
    ∃ signs blanks k, Reading text h signs blanks k := by
  obtain ⟨hopens, signs, blanks, later, hmarker, -, hahead, hparts⟩ :=
    reads_pattern_iff.1 (reads_of_mem_hits hm).2
  obtain rfl : later = text.drop (h.start + signs + blanks.length) := by
    rw [Nat.add_assoc, ← List.drop_drop, hahead, ← List.append_assoc, List.drop_left']
    rw [List.length_append, List.length_replicate]
  refine ⟨signs, blanks, _, opensLine_iff.1 hopens, hmarker, hahead, rfl, ?_, ?_⟩
  · simp only [Hit.span, hparts, List.flatten_cons, List.length_append, List.length_replicate,
      List.flatten_nil, List.append_nil]
    omega
  · rw [hparts]
    rfl

namespace Reading

variable {h : Hit} {signs k : Nat} {blanks : List Char}

theorem getElem?_eq (r : Reading text h signs blanks k) (hi : h.start ≤ i) :
    text[i]? = (List.replicate signs '#' ++ (blanks ++ text.drop k))[i - h.start]? := by
  rw [← r.ahead, List.getElem?_drop, Nat.add_sub_cancel' hi]

theorem sign (r : Reading text h signs blanks k) (hi : h.start ≤ i) (hs : i < h.start + signs) :
    text[i]? = some '#' := by
  rw [r.getElem?_eq hi, List.getElem?_append_left (by rw [List.length_replicate]; omega),
    List.getElem?_replicate, if_pos (by omega)]

theorem blank (r : Reading text h signs blanks k) (hi : h.start + signs ≤ i) (hk : i < k) :
    ∃ c ∈ blanks, text[i]? = some c := by
  have hbehind := r.behind
  have hlt : i - h.start - signs < blanks.length := by omega
  rw [r.getElem?_eq (by omega), List.getElem?_append_right (by rw [List.length_replicate]; omega),
    List.length_replicate, List.getElem?_append_left hlt]
  exact ⟨_, List.getElem_mem hlt, List.getElem?_eq_getElem hlt⟩

theorem ne_lineEnd (r : Reading text h signs blanks k) (hi : k ≤ i) (hs : i < h.span.stop) :
    text[i]? ≠ some '\n' := by
  have hstop := r.stop
  have hlt : i - k < (upToLineEnd (text.drop k)).length := by omega
  intro hend
  have hahead : (text.drop k)[i - k]? = some '\n' := by
    rwa [List.getElem?_drop, Nat.add_sub_cancel' hi]
  have hprefix : upToLineEnd (text.drop k) <+: text.drop k := List.takeWhile_prefix _
  have hline := List.prefix_iff_getElem?.1 hprefix (i - k) hlt
  have hend := Option.some.inj (hahead.symm.trans hline)
  exact not_mem_upToLineEnd _ (hend ▸ List.getElem_mem hlt)

theorem line (r : Reading text h signs blanks k) (hline : '\n' ∉ blanks)
    (hshown : trim (upToLineEnd (text.drop k)) ≠ []) :
    Line text h.start (trim (upToLineEnd (text.drop k))) ∧
      h.span.stop = h.start + (upToLineEnd (text.drop h.start)).length := by
  have hsigns : '\n' ∉ List.replicate signs '#' := by simp
  have hall : upToLineEnd (text.drop h.start) =
      List.replicate signs '#' ++ (blanks ++ upToLineEnd (text.drop k)) := by
    rw [r.ahead, upToLineEnd_append hsigns, upToLineEnd_append hline]
  refine ⟨⟨r.opens, ⟨signs, blanks, _, r.marker, hall, rfl⟩, hshown⟩, ?_⟩
  rw [hall, List.length_append, List.length_append, List.length_replicate, r.stop, r.behind]
  omega

/-- No other line with a title begins inside a hit, but for the one its title is taken from. -/
theorem eq_of_line (r : Reading text h signs blanks k) (hj : Line text j title)
    (hlt : h.start < j) (hstop : j < h.span.stop) : '\n' ∈ blanks ∧ j = k := by
  have hsign := hj.sign
  have hend : text[j - 1]? = some '\n' := by
    refine getElem?_pred_of_opensLine hj.opens hlt ?_
    exact (List.getElem?_eq_some_iff.1 hsign).1.le
  have hbehind : h.start + signs ≤ j - 1 := by
    by_contra hin
    have := r.sign (i := j - 1) (by omega) (by omega)
    rw [hend] at this
    cases this
  have hbefore : j - 1 < k := by
    by_contra hin
    exact r.ne_lineEnd (not_lt.1 hin) (by omega) hend
  obtain ⟨c, hc, hchar⟩ := r.blank hbehind hbefore
  obtain rfl := Option.some.inj (hend.symm.trans hchar)
  refine ⟨hc, ?_⟩
  by_contra hne
  obtain ⟨d, hd, hchar⟩ := r.blank (i := j) (by omega) (by omega)
  obtain rfl := Option.some.inj (hsign.symm.trans hchar)
  exact absurd (r.marker.blank _ hd) (by decide)

end Reading

theorem start_lt_of_mem_hits {h : Hit} (hm : h ∈ pattern.hits text) : h.start < h.span.stop := by
  obtain ⟨signs, blanks, k, r⟩ := exists_reading hm
  have hleast := r.marker.least
  have hbehind := r.behind
  have hstop := r.stop
  omega

end Heading

namespace Section

open Heading

variable {text : List Char} {s : Section} {hits : List Hit} {h : Hit} {title : List Char}

structure Headed (hits : List Hit) (s : Section) (h : Hit) : Prop where
  hit : h ∈ hits
  start : s.span.start = h.start
  title : s.title = some (trim (h.parts[2]?.getD []))
  holds : h.span.stop ≤ s.span.stop
  alone : ∀ g ∈ hits, g.start ≤ h.start ∨ s.span.stop ≤ g.start

theorem exists_headed_of_mem_ofHeadings {stop : Nat}
    (hordered : hits.Pairwise fun a b => a.span.stop ≤ b.start)
    (hstop : ∀ h ∈ hits, h.start < h.span.stop ∧ h.span.stop ≤ stop)
    (hs : s ∈ ofHeadings stop (hits.map ofHit)) : ∃ h, Headed hits s h := by
  induction hits with
  | nil => cases hs
  | cons first later ih =>
      obtain ⟨hfirst, hordered⟩ := List.pairwise_cons.1 hordered
      obtain ⟨hin, hstop⟩ := List.forall_mem_cons.1 hstop
      rw [List.map_cons] at hs
      rcases List.mem_cons.1 hs with rfl | hs
      · refine ⟨first, List.mem_cons_self, rfl, rfl, ?_, List.forall_mem_cons.2 ⟨Or.inl le_rfl, ?_⟩⟩
        · cases later with
          | nil => exact hin.2
          | cons next later => exact hfirst next List.mem_cons_self
        · cases later with
          | nil => exact List.forall_mem_nil _
          | cons next later =>
              obtain ⟨hnext, -⟩ := List.pairwise_cons.1 hordered
              refine List.forall_mem_cons.2 ⟨Or.inr le_rfl, fun g hg => Or.inr ?_⟩
              exact (hstop next List.mem_cons_self).1.le.trans (hnext g hg)
      · obtain ⟨h, hh⟩ := ih hordered hstop hs
        have hbefore := hfirst h hh.hit
        exact ⟨h, List.mem_cons_of_mem _ hh.hit, hh.start, hh.title, hh.holds,
          List.forall_mem_cons.2 ⟨Or.inl (by omega), hh.alone⟩⟩

theorem exists_headed (hs : s ∈ ofText text) (ht : s.title = some title) :
    ∃ h, Headed (Heading.pattern.hits text) s h := by
  have hall := Heading.all_eq_hits text
  have hstop : ∀ h ∈ Heading.pattern.hits text,
      h.start < h.span.stop ∧ h.span.stop ≤ text.length := fun h hm =>
    ⟨start_lt_of_mem_hits hm, (slice_of_mem_hits hm).1⟩
  refine exists_headed_of_mem_ofHeadings (ordered_hits _ text) hstop ?_
  rw [← hall]
  cases hheadings : Heading.all text with
  | nil =>
      rw [ofText, hheadings] at hs
      cases hs
  | cons first later =>
      rcases ofText_of_all_eq hheadings with ⟨heq, -⟩ | heq
      · rwa [heq] at hs
      · rw [heq] at hs
        rcases List.mem_cons.1 hs with rfl | hs
        · cases ht
        · exact hs

/-- A line with a title begins in a section only inside the hit that begins the section. -/
theorem Headed.lt_stop (hs : Headed (Heading.pattern.hits text) s h) {j : Nat}
    {t : List Char} (hj : Line text j t) (hlt : s.span.start < j) (hstop : j < s.span.stop) :
    j < h.span.stop := by
  obtain ⟨g, hg, hle, hplace⟩ := hj.exists_hit
  have hstart := hs.start
  have hgh : g.start ≤ h.start := (hs.alone g hg).resolve_right (by omega)
  have hjg : j < g.span.stop := hplace.resolve_left (by omega)
  have hsame := eq_of_mem_hits hg hs.hit (hgh.trans_lt (start_lt_of_mem_hits hs.hit)) (by omega)
  exact hsame ▸ hjg

theorem Headed.titled (hs : Headed (Heading.pattern.hits text) s h)
    (ht : s.title = some title) (hshown : title ≠ []) :
    LastLine text s.span.start s.span.stop title ∨
      ∃ k, LastBorrowed text s.span.start k s.span.stop title := by
  obtain ⟨signs, blanks, k, r⟩ := exists_reading hs.hit
  have hstart := hs.start
  have hholds := hs.holds
  have htitle : trim (upToLineEnd (text.drop k)) = title := by
    rw [← r.title]
    exact Option.some.inj (hs.title.symm.trans ht)
  have hlater {j : Nat} {t : List Char} (hlt : s.span.start < j) (hstop : j < s.span.stop)
      (hj : Line text j t) : '\n' ∈ blanks ∧ j = k :=
    r.eq_of_line hj (by omega) (hs.lt_stop hj hlt hstop)
  rw [hstart] at hlater ⊢
  by_cases hblanks : '\n' ∈ blanks
  · have hborrows : Borrows text h.start k title :=
      ⟨r.opens, ⟨signs, blanks, r.marker, hblanks, r.ahead⟩, htitle, hshown⟩
    refine Or.inr ⟨k, hborrows, ?_, ?_⟩
    · rw [← r.stop]
      exact hholds
    · exact fun j t hlt hstop hj => (hlater hlt hstop hj).2
  · obtain ⟨hline, hspan⟩ := r.line hblanks (htitle.symm ▸ hshown)
    refine Or.inl ⟨htitle ▸ hline, ?_, ?_⟩
    · rw [← hspan]
      exact hholds
    · exact fun j t hlt hstop hj => hblanks (hlater hlt hstop hj).1

/-- Joined sections end with a section that gives them their title. -/
theorem exists_last_of_mem_gatherInto {budget a b : Nat} {current m : Section}
    {later : List Section} (h : Tiles text a (current :: later) b)
    (hm : m ∈ gatherInto budget current later) :
    ∃ s ∈ current :: later, m.title = s.title ∧ m.span.stop = s.span.stop ∧
      m.span.start ≤ s.span.start := by
  induction later generalizing current a with
  | nil =>
      obtain rfl := List.mem_singleton.1 hm
      exact ⟨m, List.mem_cons_self, rfl, rfl, le_rfl⟩
  | cons next later ih =>
      rw [gatherInto] at hm
      split at hm
      · obtain ⟨s, hs, hlast⟩ := ih h.join hm
        rcases List.mem_cons.1 hs with rfl | hs
        · have hcurrent := (h.bounds.2 current List.mem_cons_self).2.1
          have hnext := h.2.2.1
          dsimp only at hlast
          exact ⟨next, List.mem_cons_of_mem _ List.mem_cons_self, hlast.1, hlast.2.1, by omega⟩
        · exact ⟨s, List.mem_cons_of_mem _ (List.mem_cons_of_mem _ hs), hlast⟩
      · rcases List.mem_cons.1 hm with rfl | hm
        · exact ⟨m, List.mem_cons_self, rfl, rfl, le_rfl⟩
        · obtain ⟨s, hs, hlast⟩ := ih h.2.2 hm
          exact ⟨s, List.mem_cons_of_mem _ hs, hlast⟩

theorem exists_last_of_mem_gather {budget : Nat} {m : Section}
    (hm : m ∈ gather budget (ofText text)) :
    ∃ s ∈ ofText text, m.title = s.title ∧ m.span.stop = s.span.stop ∧
      m.span.start ≤ s.span.start := by
  rcases tiles_ofText text with hnone | ⟨a, htiles, -⟩
  · rw [hnone] at hm
    cases hm
  · cases hsections : ofText text with
    | nil =>
        rw [hsections] at hm
        cases hm
    | cons first later =>
        rw [hsections] at hm htiles
        exact exists_last_of_mem_gatherInto htiles hm

end Section

theorem Draft.exists_section {options : ChunkOptions} {text : List Char} {d : Draft}
    (hd : d ∈ sections options text) {title : List Char} (ht : d.title = some title) :
    ∃ m ∈ Section.gather options.budget (Section.ofText text), d = ofSection text m := by
  rw [sections] at hd
  split at hd
  · obtain ⟨piece, -, rfl⟩ := List.mem_map.1 hd
    cases ht
  · obtain ⟨m, hm, rfl⟩ := List.mem_map.1 hd
    exact ⟨m, hm, rfl⟩

theorem Chunk.exists_of_mem_ofDrafts {index serial : Nat} {drafts : List Draft} {c : Chunk}
    (hc : c ∈ ofDrafts index serial drafts) : ∃ i n, ∃ d ∈ drafts, c = ofDraft i n d := by
  obtain ⟨i, hi⟩ := List.mem_iff_getElem?.1 hc
  rw [getElem?_ofDrafts, Option.map_eq_some_iff] at hi
  obtain ⟨d, hd, rfl⟩ := hi
  exact ⟨_, _, d, List.mem_of_getElem? hd, rfl⟩

/-- The heading that a chunk is given is the title of the last line with a title in it, or what a
line of number signs alone behind it takes from the next line. -/
theorem Strategy.titled_by_last_line (options : ChunkOptions) (serial : Nat) {text : String}
    {masking : Sentence.Masking} {c : Chunk}
    (hc : c ∈ markdownAware.chunks options serial text masking) {heading : Value}
    (hh : (c.metadata.bind fun fields => fields.get? Key.heading) = some heading) :
    ∃ title i, heading = .text (String.ofList title) ∧ c.start ≤ i ∧
      (Heading.LastLine text.toList i c.stop title ∨
        ∃ k, Heading.LastBorrowed text.toList i k c.stop title) := by
  obtain ⟨index, n, d, hd, rfl⟩ := Chunk.exists_of_mem_ofDrafts hc
  have htraits := congrArg Prod.snd (Chunk.traits_ofDraft index n d)
  obtain ⟨title, htitle, rfl⟩ := Option.map_eq_some_iff.1 (htraits.symm.trans hh)
  obtain ⟨ht, hshown⟩ := Option.filter_eq_some_iff.1 htitle
  obtain ⟨m, hm, rfl⟩ := Draft.exists_section hd ht
  obtain ⟨s, hs, htitles, hstop, hstart⟩ := Section.exists_last_of_mem_gather hm
  have hst : s.title = some title := htitles.symm.trans ht
  obtain ⟨h, hheaded⟩ := Section.exists_headed hs hst
  refine ⟨title, s.span.start, rfl, hstart, ?_⟩
  have hlast := hheaded.titled hst (by simpa using hshown)
  rwa [← hstop] at hlast

theorem Strategy.titled_by_second_line :
    ∃ c ∈ markdownAware.chunks ⟨100, 0, .markdownAware⟩ 0 "# A\nOne.\n##\tB \nTwo",
      (c.metadata.bind fun fields => fields.get? Key.heading) = some (.text "B") ∧
        ∃ title i, Value.text "B" = .text (String.ofList title) ∧ c.start ≤ i ∧
          (Heading.LastLine "# A\nOne.\n##\tB \nTwo".toList i c.stop title ∨
            ∃ k, Heading.LastBorrowed "# A\nOne.\n##\tB \nTwo".toList i k c.stop title) := by
  have htraits : (markdownAware.chunks ⟨100, 0, .markdownAware⟩ 0 "# A\nOne.\n##\tB \nTwo").map
      Chunk.traits = [(⟨0, 18⟩, some (.text "B"))] := rfl
  obtain ⟨c, hc, hheading⟩ := List.exists_of_mem_map (htraits ▸ List.mem_singleton_self _)
  have hh := congrArg Prod.snd hheading
  exact ⟨c, hc, hh, titled_by_last_line _ 0 hc hh⟩

/-- A line of number signs alone makes the next line the heading, whatever that is. -/
theorem Strategy.titled_by_no_line :
    let text := "# A\n##\ntext"
    (markdownAware.chunks ⟨100, 0, .markdownAware⟩ 0 text).map Chunk.traits =
        [(⟨0, 11⟩, some (.text "text"))] ∧
      ∀ i, ¬ Heading.Line text.toList i "text".toList := by
  refine ⟨rfl, fun i hi => ?_⟩
  have hshort : ∀ i < 11, "# A\n##\ntext".toList[i]? = some '#' →
      (Heading.upToLineEnd ("# A\n##\ntext".toList.drop i)).length < 4 := by decide
  have hsign := hi.sign
  have hlt := hshort i (List.getElem?_eq_some_iff.1 hsign).1 hsign
  obtain ⟨signs, blanks, rest, -, hline, htrim⟩ := hi.shape
  have hlength := length_trim_le rest
  rw [htrim] at hlength
  rw [hline, List.length_append, List.length_append] at hlt
  exact absurd hlength (by simp; omega)

end Retrieval
