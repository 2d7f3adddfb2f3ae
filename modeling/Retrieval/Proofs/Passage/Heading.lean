import Retrieval.Proofs.Passage.Section
import Retrieval.Proofs.Text.Pattern

/-!
# Headings are the hits of a search

A heading is read as a pattern: number signs at the beginning of a line, blanks, and the rest of a
line. Number signs are never given back, and blanks only when the text ends behind them, so the
headings found in one pass are the hits of the search.
-/

namespace Retrieval

open Text Pattern

namespace Heading

def restOfLine : Pattern :=
  [.take (· != '\n') 1 none, .look fun _ ahead => ahead.head?.all (· == '\n')]

def blanksThenTitle : Pattern := .take isBlank 1 none :: restOfLine

def signsThenTitle : Pattern := .take (· == '#') 1 (some 6) :: blanksThenTitle

/-- Number signs at the beginning of a line, blanks, and the rest of a line. -/
def pattern : Pattern :=
  .look (fun before _ => before.head?.all (· == '\n')) :: signsThenTitle

def ofParts (parts : List (List Char)) : Heading := ⟨parts.flatten.length, trim (parts[2]?.getD [])⟩

def ofHit (h : Hit) : Nat × Heading := (h.start, ofParts h.parts)

variable {before ahead text : List Char}

theorem read?_restOfLine (before ahead : List Char) : restOfLine.read? before ahead =
    if upToLineEnd ahead = [] then none else some [upToLineEnd ahead] := by
  have htaken : run (· != '\n') none ahead = upToLineEnd ahead := run_none _ _
  have hrest : ahead.drop (upToLineEnd ahead).length = ahead.dropWhile (· != '\n') :=
    drop_length_takeWhile _ _
  have hend : (ahead.dropWhile (· != '\n')).head?.all (· == '\n') = true := by
    have hhead := List.head?_dropWhile_not (· != '\n') ahead
    cases h : (ahead.dropWhile (· != '\n')).head? with
    | none => rfl
    | some c =>
        rw [h] at hhead
        simpa using hhead
  rw [restOfLine, read?, htaken, hrest]
  split
  · next hnil =>
    rw [hnil]
    rfl
  · next hne =>
    have hleast : 1 ≤ (upToLineEnd ahead).reverse.length := by
      rw [List.length_reverse]
      exact List.length_pos_of_ne_nil hne
    rw [giveBack_of_first hleast (if_pos hend), List.reverse_reverse]

/-- Where the text ends behind the blanks, the last one that is no line end becomes the title,
unless that leaves no blank before it. -/
theorem giveBack_exhausted {taken : List Char} (hends : ∀ c ∈ ahead, c = '\n') :
    giveBack 1 restOfLine.read? before taken ahead =
      match taken.dropWhile (· == '\n') with
      | c :: d :: earlier => some [(d :: earlier).reverse, [c]]
      | _ => none := by
  have hend : upToLineEnd ahead = [] := by
    cases ahead with
    | nil => rfl
    | cons c ahead =>
        rw [hends c List.mem_cons_self]
        rfl
  induction taken generalizing ahead with
  | nil => rfl
  | cons c taken ih =>
      have hnext : restOfLine.read? (c :: taken ++ before) ahead = none := by
        rw [read?_restOfLine, if_pos hend]
      rw [giveBack, if_neg (Nat.not_lt_zero _), hnext]
      by_cases hc : c = '\n'
      · subst hc
        exact ih (List.forall_mem_cons.2 ⟨rfl, hends⟩) rfl
      · rw [List.dropWhile_cons_of_neg (by simpa using hc)]
        cases taken with
        | nil => rfl
        | cons d earlier =>
            have hline : upToLineEnd (c :: ahead) = [c] := by
              rw [upToLineEnd, List.takeWhile_cons_of_pos (by simpa using hc)]
              exact congrArg (c :: ·) hend
            refine giveBack_of_first (Nat.succ_pos _) ?_
            rw [read?_restOfLine, hline, if_neg (List.cons_ne_nil _ _)]

theorem read?_blanksThenTitle (before ahead : List Char) :
    (blanksThenTitle.read? before ahead).map
        (fun parts => (parts.flatten.length, parts[1]?.getD [])) =
      title? (ahead.takeWhile isBlank) (ahead.dropWhile isBlank) := by
  have hhead := List.head?_dropWhile_not isBlank ahead
  rw [blanksThenTitle, read?, run_none, drop_length_takeWhile]
  cases hblanks : ahead.takeWhile isBlank with
  | nil => rfl
  | cons b blanks =>
      have hleast : 1 ≤ (b :: blanks).reverse.length := by
        rw [List.length_reverse]
        exact Nat.succ_pos _
      cases hrest : ahead.dropWhile isBlank with
      | cons c rest =>
          rw [hrest] at hhead
          have hc : c ≠ '\n' := by
            rintro rfl
            have hblank : isBlank '\n' = false := hhead
            exact absurd hblank (by decide)
          have hline : upToLineEnd (c :: rest) = c :: upToLineEnd rest :=
            List.takeWhile_cons_of_pos (by simpa using hc)
          have hread : restOfLine.read? ((b :: blanks).reverse ++ before) (c :: rest) =
              some [upToLineEnd (c :: rest)] := by
            rw [read?_restOfLine, if_neg (by rw [hline]; exact List.cons_ne_nil _ _)]
          rw [giveBack_of_first hleast hread]
          simp [title?]
      | nil =>
          have hends : ∀ c ∈ ([] : List Char), c = '\n' := List.forall_mem_nil _
          rw [giveBack_exhausted hends, List.reverse_cons, List.dropWhile_append, title?]
          cases hlater : blanks.reverse.dropWhile (· == '\n') with
          | nil =>
              by_cases hb : b = '\n'
              · simp [hb]
              · simp [hb]
          | cons c earlier =>
              cases earlier with
              | nil => simp
              | cons d earlier => simp

theorem read?_sign (before rest : List Char) :
    blanksThenTitle.read? before ('#' :: rest) = none := by
  have h := read?_blanksThenTitle before ('#' :: rest)
  rw [List.takeWhile_cons_of_neg (by decide)] at h
  exact Option.map_eq_none_iff.1 h

/-- Number signs are not given back, since no blank is then read. -/
theorem opening?_eq (before text : List Char) :
    opening? text = (signsThenTitle.read? before text).map ofParts := by
  have hsign {c : Char} (hc : c ∈ text.takeWhile (· == '#')) : c = '#' := by
    have hkind := List.mem_takeWhile_imp hc
    exact beq_iff_eq.1 hkind
  have hgiven {kept given rest before : List Char}
      (hsplit : (run (· == '#') (some 6) text).reverse.reverse = kept ++ given)
      (hne : given ≠ []) : blanksThenTitle.read? before (given ++ rest) = none := by
    obtain ⟨c, given, rfl⟩ := List.exists_cons_of_ne_nil hne
    have hc : c ∈ run (· == '#') (some 6) text := by
      rw [← List.reverse_reverse (run _ _ _), hsplit]
      exact List.mem_append_right _ List.mem_cons_self
    rw [hsign (List.mem_of_mem_take hc)]
    exact read?_sign before (given ++ rest)
  rw [signsThenTitle, read?, opening?]
  split
  · next hcount =>
    rcases hcount with hzero | hsix
    · have hrun : run (· == '#') (some 6) text = [] := by
        rw [run, List.length_eq_zero_iff.1 hzero, List.take_nil]
      rw [hrun]
      rfl
    · have hrun : (run (· == '#') (some 6) text).length = 6 :=
        List.length_take_of_le (Nat.le_of_lt hsix)
      have hprefix := List.takeWhile_prefix (l := text) (· == '#')
      have hlt := hsix.trans_le hprefix.length_le
      have hseventh : text[6] = '#' := by
        rw [← hprefix.getElem hsix]
        exact hsign (List.getElem_mem hsix)
      rw [giveBack_eq_none]
      · rfl
      · intro kept given hsplit _
        by_cases hne : given = []
        · rw [hne, List.nil_append, hrun, List.drop_eq_getElem_cons hlt, hseventh]
          exact read?_sign _ _
        · exact hgiven hsplit hne
  · next hcount =>
    obtain ⟨hzero, hsix⟩ := not_or.1 hcount
    have hrun : run (· == '#') (some 6) text = text.takeWhile (· == '#') :=
      List.take_of_length_le (not_lt.1 hsix)
    have hleast : 1 ≤ (run (· == '#') (some 6) text).reverse.length := by
      rw [List.length_reverse, hrun]
      exact Nat.one_le_iff_ne_zero.2 hzero
    rw [giveBack_of_no_other hleast fun kept given hsplit hne => hgiven hsplit hne,
      List.reverse_reverse, hrun]
    dsimp only
    rw [← read?_blanksThenTitle ((text.takeWhile (· == '#')).reverse ++ before), Option.map_map,
      Option.map_map]
    refine Option.map_congr fun parts _ => ?_
    simp [ofParts]

theorem scan_eq_search (skip position : Nat) (before text : List Char) :
    scan skip position (before.head?.all (· == '\n')) text =
      (pattern.search skip position before text).map ofHit := by
  induction text generalizing skip position before with
  | nil => cases skip <;> rfl
  | cons c rest ih =>
      have hlater (skip : Nat) : scan skip (position + 1) (c == '\n') rest =
          (pattern.search skip (position + 1) (c :: before) rest).map ofHit :=
        ih skip (position + 1) (c :: before)
      cases skip with
      | succ skip => exact hlater skip
      | zero =>
          have hread : (if before.head?.all (· == '\n') then opening? (c :: rest) else none) =
              (pattern.read? before (c :: rest)).map ofParts := by
            rw [pattern, read?]
            split
            · exact opening?_eq before (c :: rest)
            · rfl
          rw [scan, search, hread]
          cases pattern.read? before (c :: rest) with
          | none => exact hlater 0
          | some parts => exact congrArg (_ :: ·) (hlater _)

/-- The headings of a text are what the search finds. -/
theorem all_eq_hits (text : List Char) : all text = (pattern.hits text).map ofHit :=
  scan_eq_search 0 0 [] text

end Heading

end Retrieval
