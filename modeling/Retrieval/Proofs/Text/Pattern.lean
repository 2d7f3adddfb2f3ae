import Mathlib.Data.List.Pairwise
import Mathlib.Data.List.TakeWhile
import Retrieval.Passage.Span

/-!
# Patterns and where they occur

A pattern is a list of steps. A step takes characters of one kind, as many as it may, and gives some
of them back only if the rest of the pattern cannot be read behind them; or it looks at what
surrounds a place and takes nothing. A search goes through a text from left to right and continues
behind each hit. Every hit reads as the pattern says, hits stand in order and apart, and no place
where the pattern can be read is passed over.
-/

namespace Retrieval

inductive Pattern.Step
  /-- At least `least` characters of a kind, and no more than `most` if that is given. -/
  | take (kind : Char → Bool) (least : Nat) (most : Option Nat)
  /-- A condition on the text before, last character first, and on the text ahead. -/
  | look (holds : List Char → List Char → Bool)

abbrev Pattern := List Pattern.Step

namespace Pattern

/-- Reads on behind the characters taken, the last one first; as long as that fails, one more of
them is given back. -/
def giveBack (least : Nat) (next : List Char → List Char → Option (List (List Char)))
    (before : List Char) : (taken ahead : List Char) → Option (List (List Char))
  | [], ahead => if least = 0 then (next before ahead).map ([] :: ·) else none
  | c :: taken, ahead =>
      if taken.length < least - 1 then none
      else match next (c :: taken ++ before) ahead with
        | some parts => some ((c :: taken).reverse :: parts)
        | none => giveBack least next before taken (c :: ahead)

def run (kind : Char → Bool) (most : Option Nat) (ahead : List Char) : List Char :=
  (ahead.takeWhile kind).take (most.getD ahead.length)

def read? : Pattern → (before ahead : List Char) → Option (List (List Char))
  | [], _, _ => some []
  | .look holds :: later, before, ahead =>
      if holds before ahead then read? later before ahead else none
  | .take kind least most :: later, before, ahead =>
      giveBack least (read? later) before (run kind most ahead).reverse
        (ahead.drop (run kind most ahead).length)

structure Hit where
  start : Nat
  parts : List (List Char)
deriving DecidableEq, Repr

def Hit.span (h : Hit) : Span := ⟨h.start, h.start + h.parts.flatten.length⟩

@[simp] theorem Hit.start_span (h : Hit) : h.span.start = h.start := rfl

/-- The hits in the text from `position` on, behind `skip` characters of an earlier hit. -/
def search (p : Pattern) : (skip position : Nat) → (before text : List Char) → List Hit
  | _, _, _, [] => []
  | skip + 1, position, before, c :: rest => search p skip (position + 1) (c :: before) rest
  | 0, position, before, c :: rest =>
      match p.read? before (c :: rest) with
      | some parts =>
          ⟨position, parts⟩ ::
            search p (parts.flatten.length - 1) (position + 1) (c :: before) rest
      | none => search p 0 (position + 1) (c :: before) rest

def hits (p : Pattern) (text : List Char) : List Hit := p.search 0 0 [] text

/-- All ways to read a pattern, whichever is preferred. -/
inductive Reads : Pattern → List Char → List Char → List (List Char) → Prop
  | done {before ahead : List Char} : Reads [] before ahead []
  | look {holds : List Char → List Char → Bool} {later : Pattern} {before ahead : List Char}
      {parts : List (List Char)} (h : holds before ahead = true)
      (hlater : Reads later before ahead parts) : Reads (.look holds :: later) before ahead parts
  | take {kind : Char → Bool} {least : Nat} {most : Option Nat} {later : Pattern}
      {before ahead taken : List Char} {parts : List (List Char)}
      (hkind : ∀ c ∈ taken, kind c = true) (hleast : least ≤ taken.length)
      (hmost : ∀ n ∈ most, taken.length ≤ n)
      (hlater : Reads later (taken.reverse ++ before) ahead parts) :
      Reads (.take kind least most :: later) before (taken ++ ahead) (taken :: parts)

variable {p : Pattern} {before ahead text : List Char} {parts : List (List Char)}

theorem Reads.flatten_isPrefix (h : Reads p before ahead parts) : parts.flatten <+: ahead := by
  induction h with
  | done => exact List.nil_prefix
  | look _ _ ih => exact ih
  | take _ _ _ _ ih =>
      rw [List.flatten_cons]
      exact (List.prefix_append_right_inj _).2 ih

section Run

variable {kind : Char → Bool} {most : Option Nat}

theorem run_isPrefix (kind : Char → Bool) (most : Option Nat) (ahead : List Char) :
    run kind most ahead <+: ahead :=
  (List.take_prefix _ _).trans (List.takeWhile_prefix _)

theorem run_append_drop (kind : Char → Bool) (most : Option Nat) (ahead : List Char) :
    run kind most ahead ++ ahead.drop (run kind most ahead).length = ahead :=
  List.prefix_iff_eq_append.1 (run_isPrefix kind most ahead)

theorem kind_of_mem_run {c : Char} (h : c ∈ run kind most ahead) : kind c = true :=
  List.mem_takeWhile_imp (List.mem_of_mem_take h)

theorem length_run_le {n : Nat} (h : n ∈ most) : (run kind most ahead).length ≤ n := by
  obtain rfl := Option.mem_def.1 h
  exact List.length_take_le _ _

theorem run_none (kind : Char → Bool) (ahead : List Char) :
    run kind none ahead = ahead.takeWhile kind :=
  List.take_of_length_le (List.takeWhile_prefix kind).length_le

theorem drop_length_takeWhile (kind : Char → Bool) (ahead : List Char) :
    ahead.drop (ahead.takeWhile kind).length = ahead.dropWhile kind :=
  List.append_cancel_left ((List.prefix_iff_eq_append.1 (List.takeWhile_prefix kind)).trans
    List.takeWhile_append_dropWhile.symm)

theorem prefix_run {taken rest : List Char} (hkind : ∀ c ∈ taken, kind c = true)
    (hmost : ∀ n ∈ most, taken.length ≤ n) : taken <+: run kind most (taken ++ rest) := by
  rw [run, List.takeWhile_append_of_pos hkind, List.prefix_take_iff]
  refine ⟨List.prefix_append _ _, ?_⟩
  cases most with
  | none => simp
  | some n => exact hmost n rfl

end Run

theorem reads_nil_iff : Reads [] before ahead parts ↔ parts = [] :=
  ⟨fun h => by cases h; rfl, fun h => h ▸ .done⟩

theorem reads_look_iff {holds : List Char → List Char → Bool} {later : Pattern} :
    Reads (.look holds :: later) before ahead parts ↔
      holds before ahead = true ∧ Reads later before ahead parts :=
  ⟨fun h => by cases h with | look h hlater => exact ⟨h, hlater⟩, fun h => .look h.1 h.2⟩

theorem reads_take_iff {kind : Char → Bool} {least : Nat} {most : Option Nat} {later : Pattern} :
    Reads (.take kind least most :: later) before ahead parts ↔
      ∃ taken rest others, ahead = taken ++ rest ∧ parts = taken :: others ∧
        (∀ c ∈ taken, kind c = true) ∧ least ≤ taken.length ∧ (∀ n ∈ most, taken.length ≤ n) ∧
        Reads later (taken.reverse ++ before) rest others := by
  constructor
  · intro h
    cases h with
    | take hkind hleast hmost hlater =>
        exact ⟨_, _, _, rfl, rfl, hkind, hleast, hmost, hlater⟩
  · rintro ⟨taken, rest, others, rfl, rfl, hkind, hleast, hmost, hlater⟩
    exact .take hkind hleast hmost hlater

theorem reads_one_iff {kind : Char → Bool} {later : Pattern} :
    Reads (.take kind 1 (some 1) :: later) before ahead parts ↔
      ∃ c rest others, ahead = c :: rest ∧ parts = [c] :: others ∧ kind c = true ∧
        Reads later (c :: before) rest others := by
  rw [reads_take_iff]
  constructor
  · rintro ⟨taken, rest, others, rfl, rfl, hkind, hleast, hmost, hlater⟩
    obtain ⟨c, rfl⟩ := List.length_eq_one_iff.1 (Nat.le_antisymm (hmost 1 rfl) hleast)
    exact ⟨c, rest, others, rfl, rfl, hkind c (List.mem_singleton_self c), hlater⟩
  · rintro ⟨c, rest, others, rfl, rfl, hkind, hlater⟩
    refine ⟨[c], rest, others, rfl, rfl, List.forall_mem_singleton.2 hkind, le_rfl, ?_, hlater⟩
    intro n hn
    obtain rfl := Option.some.inj hn
    exact le_rfl

section GiveBack

variable {least : Nat} {next : List Char → List Char → Option (List (List Char))}
  {taken : List Char}

theorem giveBack_eq_some (h : giveBack least next before taken ahead = some parts) :
    ∃ kept given later, taken.reverse = kept ++ given ∧ least ≤ kept.length ∧
      next (kept.reverse ++ before) (given ++ ahead) = some later ∧ parts = kept :: later := by
  induction taken generalizing ahead with
  | nil =>
      rw [giveBack] at h
      split at h
      · next hleast =>
        obtain ⟨later, hlater, rfl⟩ := Option.map_eq_some_iff.1 h
        exact ⟨[], [], later, rfl, Nat.le_of_eq hleast, hlater, rfl⟩
      · cases h
  | cons c taken ih =>
      rw [giveBack] at h
      split at h
      · cases h
      · next hleast =>
        split at h
        · next later hlater =>
          obtain rfl := Option.some.inj h
          refine ⟨(c :: taken).reverse, [], later, by simp, ?_, ?_, rfl⟩
          · rw [List.length_reverse, List.length_cons]
            omega
          · rwa [List.reverse_reverse]
        · obtain ⟨kept, given, later, hsplit, hkept, hlater, hparts⟩ := ih h
          refine ⟨kept, given ++ [c], later, ?_, hkept, ?_, hparts⟩
          · rw [List.reverse_cons, hsplit, List.append_assoc]
          · rwa [List.append_assoc]

theorem exists_giveBack {kept given : List Char} {found : List (List Char)}
    (hsplit : taken.reverse = kept ++ given) (hleast : least ≤ kept.length)
    (hnext : next (kept.reverse ++ before) (given ++ ahead) = some found) :
    ∃ parts, giveBack least next before taken ahead = some parts := by
  induction taken generalizing ahead given with
  | nil =>
      obtain ⟨rfl, rfl⟩ := List.append_eq_nil_iff.1 hsplit.symm
      have hnext : next before ahead = some found := hnext
      rw [giveBack, if_pos (Nat.le_zero.1 hleast), hnext]
      exact ⟨_, rfl⟩
  | cons c taken ih =>
      have hlength := congrArg List.length hsplit
      rw [List.length_reverse, List.length_cons, List.length_append] at hlength
      rw [giveBack, if_neg (by omega)]
      split
      · exact ⟨_, rfl⟩
      · next hnone =>
        rw [List.reverse_cons] at hsplit
        rcases List.eq_nil_or_concat given with rfl | ⟨given, d, hgiven⟩
        · rw [List.append_nil] at hsplit
          rw [← hsplit, List.reverse_concat, List.reverse_reverse, List.nil_append] at hnext
          rw [hnext] at hnone
          cases hnone
        · rw [hgiven, List.concat_eq_append, ← List.append_assoc] at hsplit
          obtain ⟨hinit, hlast⟩ := List.append_inj' hsplit rfl
          obtain rfl := List.singleton_inj.1 hlast
          rw [hgiven, List.concat_eq_append, List.append_assoc] at hnext
          exact ih hinit hnext

theorem giveBack_of_first (hleast : least ≤ taken.length)
    (hnext : next (taken ++ before) ahead = some parts) :
    giveBack least next before taken ahead = some (taken.reverse :: parts) := by
  cases taken with
  | nil =>
      rw [giveBack, if_pos (Nat.le_zero.1 hleast), show next before ahead = some parts from hnext]
      rfl
  | cons c taken =>
      rw [List.length_cons] at hleast
      rw [giveBack, if_neg (by omega), hnext]

theorem giveBack_eq_none (hfail : ∀ kept given, taken.reverse = kept ++ given →
    least ≤ kept.length → next (kept.reverse ++ before) (given ++ ahead) = none) :
    giveBack least next before taken ahead = none := by
  cases h : giveBack least next before taken ahead with
  | none => rfl
  | some parts =>
      obtain ⟨kept, given, later, hsplit, hleast, hnext, _⟩ := giveBack_eq_some h
      rw [hfail kept given hsplit hleast] at hnext
      cases hnext

/-- Nothing is given back if that never helps. -/
theorem giveBack_of_no_other (hleast : least ≤ taken.length)
    (hfail : ∀ kept given, taken.reverse = kept ++ given → given ≠ [] →
      next (kept.reverse ++ before) (given ++ ahead) = none) :
    giveBack least next before taken ahead =
      (next (taken ++ before) ahead).map (taken.reverse :: ·) := by
  cases hnext : next (taken ++ before) ahead with
  | some parts => exact giveBack_of_first hleast hnext
  | none =>
      refine giveBack_eq_none fun kept given hsplit _ => ?_
      by_cases hgiven : given = []
      · rw [hgiven, List.append_nil] at hsplit
        rw [hgiven, ← hsplit, List.reverse_reverse]
        exact hnext
      · exact hfail kept given hsplit hgiven

end GiveBack

theorem reads_of_read? (h : p.read? before ahead = some parts) : Reads p before ahead parts := by
  induction p generalizing before ahead parts with
  | nil =>
      obtain rfl := Option.some.inj h
      exact .done
  | cons step later ih =>
      cases step with
      | look holds =>
          rw [read?] at h
          split at h
          · next hholds => exact .look hholds (ih h)
          · cases h
      | take kind least most =>
          obtain ⟨kept, given, found, hsplit, hleast, hnext, rfl⟩ := giveBack_eq_some h
          rw [List.reverse_reverse] at hsplit
          have hkept : kept <+: run kind most ahead := ⟨given, hsplit.symm⟩
          have hahead : kept ++ (given ++ ahead.drop (run kind most ahead).length) = ahead := by
            rw [← List.append_assoc, ← hsplit, run_append_drop]
          have hreads : Reads (.take kind least most :: later) before
              (kept ++ (given ++ ahead.drop (run kind most ahead).length)) (kept :: found) :=
            .take (fun c hc => kind_of_mem_run (hkept.subset hc)) hleast
              (fun n hn => hkept.length_le.trans (length_run_le hn)) (ih hnext)
          rwa [hahead] at hreads

/-- Giving back finds a reading if there is one. -/
theorem exists_read? (h : Reads p before ahead parts) :
    ∃ found, p.read? before ahead = some found := by
  induction h with
  | done => exact ⟨_, rfl⟩
  | look hholds _ ih =>
      rw [read?, if_pos hholds]
      exact ih
  | @take kind least most later before ahead taken parts hkind hleast hmost _ ih =>
      obtain ⟨found, hfound⟩ := ih
      obtain ⟨given, hsplit⟩ : taken <+: run kind most (taken ++ ahead) := prefix_run hkind hmost
      have hall := run_append_drop kind most (taken ++ ahead)
      rw [← hsplit, List.append_assoc, List.append_cancel_left_eq] at hall
      have hnext : later.read? (taken.reverse ++ before) (given ++ (taken ++ ahead).drop
          (run kind most (taken ++ ahead)).length) = some found := by
        rw [← hsplit, hall]
        exact hfound
      exact exists_giveBack ((List.reverse_reverse _).trans hsplit.symm) hleast hnext

section Search

variable {skip position i : Nat} {h : Hit}

theorem mem_search (hm : h ∈ p.search skip position before text) :
    ∃ i, h.start = position + i ∧ skip ≤ i ∧ i < text.length ∧
      p.read? ((text.take i).reverse ++ before) (text.drop i) = some h.parts := by
  induction text generalizing skip position before with
  | nil => cases hm
  | cons c rest ih =>
      have hlater {skip : Nat} (hm : h ∈ p.search skip (position + 1) (c :: before) rest) :
          ∃ i, h.start = position + i ∧ skip + 1 ≤ i ∧ i < (c :: rest).length ∧
            p.read? (((c :: rest).take i).reverse ++ before) ((c :: rest).drop i) =
              some h.parts := by
        obtain ⟨i, hstart, hskip, hi, hread⟩ := ih hm
        refine ⟨i + 1, by omega, by omega, Nat.succ_lt_succ hi, ?_⟩
        rw [List.take_succ_cons, List.reverse_cons, List.append_assoc, List.drop_succ_cons]
        exact hread
      cases skip with
      | succ skip => exact hlater hm
      | zero =>
          rw [search] at hm
          split at hm
          · next parts hparts =>
            rcases List.mem_cons.1 hm with rfl | hm
            · exact ⟨0, rfl, le_rfl, Nat.succ_pos _, hparts⟩
            · obtain ⟨i, hstart, _, hi⟩ := hlater hm
              exact ⟨i, hstart, Nat.zero_le i, hi⟩
          · obtain ⟨i, hstart, _, hi⟩ := hlater hm
            exact ⟨i, hstart, Nat.zero_le i, hi⟩

theorem pairwise_search (p : Pattern) (skip position : Nat) (before text : List Char) :
    (p.search skip position before text).Pairwise fun a b => a.span.stop ≤ b.start := by
  induction text generalizing skip position before with
  | nil => exact .nil
  | cons c rest ih =>
      cases skip with
      | succ skip => exact ih _ _ _
      | zero =>
          rw [search]
          split
          · refine List.pairwise_cons.2 ⟨fun b hb => ?_, ih _ _ _⟩
            obtain ⟨i, hstart, hskip, _⟩ := mem_search hb
            simp only [Hit.span]
            omega
          · exact ih _ _ _

/-- A place where the pattern can be read is a hit, or lies inside one. -/
theorem exists_mem_search (hskip : skip ≤ i) (hi : i < text.length)
    (hread : p.read? ((text.take i).reverse ++ before) (text.drop i) = some parts) :
    ∃ h ∈ p.search skip position before text,
      h.start ≤ position + i ∧ (position + i = h.start ∨ position + i < h.span.stop) := by
  induction text generalizing skip position before i with
  | nil => cases hi
  | cons c rest ih =>
      have hlater {skip j : Nat} (hj : i = j + 1) (hbehind : skip ≤ j) :
          ∃ h ∈ p.search skip (position + 1) (c :: before) rest,
            h.start ≤ position + i ∧ (position + i = h.start ∨ position + i < h.span.stop) := by
        subst hj
        rw [List.take_succ_cons, List.reverse_cons, List.append_assoc, List.drop_succ_cons] at hread
        rw [Nat.add_comm j, ← Nat.add_assoc]
        exact ih hbehind (Nat.lt_of_succ_lt_succ hi) hread
      cases skip with
      | succ skip =>
          rw [search]
          exact hlater (show i = i - 1 + 1 by omega) (by omega)
      | zero =>
          rw [search]
          cases i with
          | zero =>
              have hread : p.read? before (c :: rest) = some parts := hread
              rw [hread]
              exact ⟨_, List.mem_cons_self, le_rfl, Or.inl rfl⟩
          | succ j =>
              split
              · next found _ =>
                by_cases hinside : j + 1 < found.flatten.length
                · exact ⟨_, List.mem_cons_self, Nat.le_add_right _ _,
                    Or.inr (Nat.add_lt_add_left hinside position)⟩
                · obtain ⟨h, hm, hplace⟩ := hlater rfl (show found.flatten.length - 1 ≤ j by omega)
                  exact ⟨h, List.mem_cons_of_mem _ hm, hplace⟩
              · exact hlater rfl (Nat.zero_le j)

end Search

theorem reads_of_mem_hits {h : Hit} (hm : h ∈ p.hits text) :
    h.start < text.length ∧
      Reads p (text.take h.start).reverse (text.drop h.start) h.parts := by
  obtain ⟨i, hstart, _, hi, hread⟩ := mem_search hm
  rw [Nat.zero_add] at hstart
  subst hstart
  rw [List.append_nil] at hread
  exact ⟨hi, reads_of_read? hread⟩

theorem slice_of_mem_hits {h : Hit} (hm : h ∈ p.hits text) :
    h.span.stop ≤ text.length ∧ h.span.slice text = h.parts.flatten := by
  obtain ⟨hlt, hreads⟩ := reads_of_mem_hits hm
  obtain ⟨rest, hrest⟩ := hreads.flatten_isPrefix
  have hlength := congrArg List.length hrest
  rw [List.length_append, List.length_drop] at hlength
  refine ⟨by simp only [Hit.span]; omega, ?_⟩
  rw [Hit.span, Span.slice, Span.length, Nat.add_sub_cancel_left, ← hrest, List.take_left]

theorem ordered_hits (p : Pattern) (text : List Char) :
    (p.hits text).Pairwise fun a b => a.span.stop ≤ b.start :=
  pairwise_search p 0 0 [] text

theorem eq_of_mem_hits {g h : Hit} (hg : g ∈ p.hits text) (hh : h ∈ p.hits text)
    (hstart : g.start < h.span.stop) (hstop : h.start < g.span.stop) : g = h := by
  by_contra hne
  have happart : (p.hits text).Pairwise fun a b => a.span.stop ≤ b.start ∨ b.span.stop ≤ a.start :=
    (ordered_hits p text).imp Or.inl
  have : Std.Symm fun a b : Hit => a.span.stop ≤ b.start ∨ b.span.stop ≤ a.start :=
    ⟨fun _ _ => Or.symm⟩
  rcases happart.forall hg hh hne with hle | hle
  · omega
  · omega

theorem exists_mem_hits {i : Nat} (hi : i < text.length)
    (h : Reads p (text.take i).reverse (text.drop i) parts) :
    ∃ h ∈ p.hits text, h.start ≤ i ∧ (i = h.start ∨ i < h.span.stop) := by
  obtain ⟨found, hread⟩ := exists_read? h
  rw [← List.append_nil (text.take i).reverse] at hread
  obtain ⟨h, hm, hplace⟩ := exists_mem_search (Nat.zero_le i) hi hread
  rw [Nat.zero_add] at hplace
  exact ⟨h, hm, hplace⟩

section Literal

def literal (word : List Char) : Pattern := word.map fun c => .take (· == c) 1 (some 1)

theorem reads_literal_iff {word before ahead : List Char} {parts : List (List Char)} :
    Reads (literal word) before ahead parts ↔
      word <+: ahead ∧ parts = word.map fun c => [c] := by
  induction word generalizing before ahead parts with
  | nil => exact reads_nil_iff.trans (and_iff_right List.nil_prefix).symm
  | cons c word ih =>
      refine reads_one_iff.trans ?_
      constructor
      · rintro ⟨d, rest, others, rfl, rfl, hd, hothers⟩
        obtain rfl := beq_iff_eq.1 hd
        obtain ⟨hword, rfl⟩ := ih.1 hothers
        exact ⟨List.cons_prefix_cons.2 ⟨rfl, hword⟩, rfl⟩
      · rintro ⟨⟨rest, rfl⟩, rfl⟩
        exact ⟨c, _, _, rfl, rfl, beq_self_eq_true c, ih.2 ⟨List.prefix_append word rest, rfl⟩⟩

/-- Where a word is read twice, it overlaps with itself. -/
theorem drop_prefix_of_overlap {word before before' rest rest' : List Char}
    (h : before ++ (word ++ rest) = before' ++ (word ++ rest'))
    (hle : before.length ≤ before'.length)
    (hlt : before'.length ≤ before.length + word.length) :
    word.drop (before'.length - before.length) <+: word := by
  have hprefix : before <+: before' :=
    List.prefix_of_prefix_length_le (h ▸ List.prefix_append _ _) (List.prefix_append _ _) hle
  obtain ⟨between, rfl⟩ := hprefix
  rw [List.append_assoc, List.append_cancel_left_eq] at h
  rw [List.length_append] at hlt ⊢
  rw [Nat.add_sub_cancel_left]
  have hdrop := congrArg (List.drop between.length) h
  rw [List.drop_left, List.drop_append_of_le_length (by omega)] at hdrop
  refine List.prefix_of_prefix_length_le ⟨rest, hdrop⟩ (List.prefix_append word rest') ?_
  rw [List.length_drop]
  exact Nat.sub_le _ _

end Literal

end Pattern

end Retrieval
