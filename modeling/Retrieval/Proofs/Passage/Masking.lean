import Mathlib.Data.List.Infix
import Retrieval.Passage.Sentence
import Retrieval.Proofs.Text.Pattern

/-!
# Which full stops are masked

Masking changes a text only at full stops behind a listed abbreviation that starts at a word
boundary. No listed abbreviation ends with another one, so one abbreviation takes nothing from
another at the full stop itself. The full stop inside `e.g` is the one place where an earlier mask
can destroy a later match, and only where `i.e` stands before it: in `i.e.g.` the last full stop is
masked unless `i.e` has its turn before `e.g`.
-/

namespace Retrieval.Sentence

open Text

/-- The text ends with a word that starts at a word boundary. -/
def EndsWith (text word : List Char) : Prop :=
  ∃ before, text = before ++ word ∧ ∀ c ∈ before.getLast?, isWordChar c = false

def Abbreviates (text word : List Char) (i : Nat) : Prop :=
  text[i]? = some '.' ∧ EndsWith (text.take i) word

variable {a b text before : List Char} {order : List (List Char)} {i : Nat}

theorem closesWith_reverse_iff : closesWith a text.reverse = true ↔ EndsWith text a := by
  have hdrop (before : List Char) :
      (before ++ a).reverse.drop a.length = before.reverse := by
    rw [List.reverse_append, ← List.length_reverse, List.drop_left]
  rw [closesWith, Bool.and_eq_true, List.isPrefixOf_iff_prefix, List.reverse_prefix]
  constructor
  · rintro ⟨⟨before, rfl⟩, h⟩
    refine ⟨before, rfl, ?_⟩
    rw [hdrop] at h
    rw [← List.head?_reverse]
    cases hbefore : before.reverse with
    | nil => exact fun _ hc => nomatch hc
    | cons c rest =>
        rw [hbefore] at h
        simpa using h
  · rintro ⟨before, rfl, h⟩
    refine ⟨List.suffix_append before a, ?_⟩
    rw [hdrop]
    rw [← List.head?_reverse] at h
    cases hbefore : before.reverse with
    | nil => rfl
    | cons c rest =>
        rw [hbefore] at h
        simpa using h

instance : Decidable (EndsWith text a) := decidable_of_iff _ closesWith_reverse_iff

instance : Decidable (Abbreviates text a i) := instDecidableAnd

theorem getLast?_of_endsWith (ha : a ≠ []) (h : EndsWith text a) : text.getLast? = a.getLast? := by
  obtain ⟨before, rfl, _⟩ := h
  exact List.getLast?_append_of_ne_nil before ha

theorem maskFrom_append (a before text rest : List Char) :
    maskFrom a before (text ++ rest) =
      maskFrom a before text ++ maskFrom a (text.reverse ++ before) rest := by
  induction text generalizing before with
  | nil => rfl
  | cons c text ih => simp [maskFrom, ih]

theorem getElem?_maskFrom (a text : List Char) (i : Nat) :
    (maskFrom a [] text)[i]? = if Abbreviates text a i then some maskChar else text[i]? := by
  by_cases hi : i < text.length
  · have hsplit := maskFrom_append a [] (text.take i) (text.drop i)
    have hlength : (maskFrom a [] (text.take i)).length = i := by
      rw [length_maskFrom, List.length_take_of_le hi.le]
    rw [List.take_append_drop, List.append_nil, List.drop_eq_getElem_cons hi, maskFrom] at hsplit
    rw [hsplit, List.getElem?_append_right hlength.le, hlength, Nat.sub_self,
      List.getElem?_cons_zero, List.getElem?_eq_getElem hi, apply_ite some]
    refine if_congr ?_ rfl rfl
    rw [Bool.and_eq_true, beq_iff_eq, closesWith_reverse_iff, Abbreviates,
      List.getElem?_eq_getElem hi, Option.some.injEq]
  · have hnone : text[i]? = none := List.getElem?_eq_none (not_lt.1 hi)
    have hmasked : (maskFrom a [] text)[i]? = none :=
      List.getElem?_eq_none (by rw [length_maskFrom]; exact not_lt.1 hi)
    rw [hmasked, hnone, if_neg]
    rintro ⟨hstop, _⟩
    rw [hnone] at hstop
    cases hstop

theorem maskFrom_eq_self_of_not_mem (h : maskChar ∉ maskFrom a before text) :
    maskFrom a before text = text := by
  induction text generalizing before with
  | nil => rfl
  | cons c text ih =>
      rw [maskFrom] at h ⊢
      obtain ⟨hc, htext⟩ := not_or.1 (List.mem_cons.not.1 h)
      rw [ih htext]
      split
      · next hmasked =>
        rw [if_pos hmasked] at hc
        exact absurd rfl hc
      · rfl

theorem maskFrom_eq_self_of_no_stop (h : '.' ∉ text) : maskFrom a before text = text := by
  induction text generalizing before with
  | nil => rfl
  | cons c text ih =>
      obtain ⟨hc, htext⟩ := not_or.1 (List.mem_cons.not.1 h)
      rw [maskFrom, ih htext, if_neg]
      simp [Ne.symm hc]

theorem isWordChar_maskChar : isWordChar maskChar = false := by decide +kernel

theorem isWordChar_stop : isWordChar '.' = false := by decide +kernel

/-- A mask is as little a part of a word as a full stop. -/
theorem boundary_maskFrom (a text : List Char) :
    (∀ c ∈ (maskFrom a [] text).getLast?, isWordChar c = false) ↔
      ∀ c ∈ text.getLast?, isWordChar c = false := by
  rcases List.eq_nil_or_concat text with rfl | ⟨init, c, rfl⟩
  · rfl
  · rw [List.concat_eq_append, maskFrom_append, maskFrom, maskFrom, List.getLast?_append_cons,
      List.getLast?_append_cons, List.getLast?_singleton, List.getLast?_singleton]
    simp only [Option.mem_some_iff, forall_eq']
    split
    · next hmasked =>
      rw [beq_iff_eq.1 (Bool.and_eq_true_iff.1 hmasked).1]
      exact iff_of_true isWordChar_maskChar isWordChar_stop
    · rfl

theorem endsWith_maskFrom (hb : maskChar ∉ b) : EndsWith (maskFrom a [] text) b ↔
    EndsWith text b ∧ ∀ before, text = before ++ b → maskFrom a before.reverse b = b := by
  constructor
  · rintro ⟨masked, hmasked, hboundary⟩
    have hsplit := maskFrom_append a [] (text.take masked.length) (text.drop masked.length)
    have hlength := congrArg List.length hmasked
    rw [length_maskFrom, List.length_append] at hlength
    rw [List.take_append_drop, hmasked, List.append_nil] at hsplit
    obtain ⟨hbefore, hword⟩ := List.append_inj hsplit
      (by rw [length_maskFrom, List.length_take_of_le (by omega)])
    have hdrop := maskFrom_eq_self_of_not_mem (hword ▸ hb)
    rw [hdrop] at hword
    have htext : text = text.take masked.length ++ b := by
      rw [hword, List.take_append_drop]
    refine ⟨⟨_, htext, ?_⟩, fun before hbefore => ?_⟩
    · rw [hbefore] at hboundary
      exact (boundary_maskFrom a _).1 hboundary
    · have : before = text.take masked.length := (List.append_left_inj b).1 (hbefore ▸ htext)
      rw [this, hword]
      exact hdrop
  · rintro ⟨⟨before, rfl, hboundary⟩, hkept⟩
    refine ⟨maskFrom a [] before, ?_, (boundary_maskFrom a before).2 hboundary⟩
    rw [maskFrom_append, List.append_nil, hkept before rfl]

theorem maskFrom_dotted {c d : Char} (hc : c ≠ '.') (hd : d ≠ '.') :
    maskFrom a before.reverse [c, '.', d] = [c, '.', d] ↔ ¬ EndsWith (before ++ [c]) a := by
  have hmask : maskChar ≠ '.' := by decide
  have hclose : closesWith a (before ++ [c]).reverse = true ↔ EndsWith (before ++ [c]) a :=
    closesWith_reverse_iff
  rw [List.reverse_concat] at hclose
  simp [maskFrom, hc, hd, hclose, hmask]

section Listed

def thatIs : List Char := "i.e".toList

def forExample : List Char := "e.g".toList

/-- The two dotted abbreviations run together. -/
def runTogether : List Char := "i.e.g".toList

theorem maskChar_not_mem_of_listed : ∀ a ∈ abbreviations, maskChar ∉ a := by decide

theorem nodup_abbreviations : abbreviations.Nodup := by decide

theorem thatIs_mem : thatIs ∈ abbreviations := by decide

theorem forExample_mem : forExample ∈ abbreviations := by decide

theorem eq_of_suffix : ∀ a ∈ abbreviations, ∀ b ∈ abbreviations, a <:+ b → a = b := by decide

theorem eq_of_inner_stop : ∀ a ∈ abbreviations, '.' ∈ a → a = thatIs ∨ a = forExample := by decide

theorem getLast?_of_listed : ∀ a ∈ abbreviations, a ≠ [] ∧ a.getLast? ≠ some 'i' ∧
    (a.getLast? = some 'e' → a = "Ave".toList ∨ a = thatIs) := by decide

theorem eq_of_abbreviates (ha : a ∈ abbreviations) (hb : b ∈ abbreviations)
    (h : Abbreviates text a i) (h' : Abbreviates text b i) : a = b := by
  obtain ⟨_, before, htext, _⟩ := h
  obtain ⟨_, before', htext', _⟩ := h'
  have hsuffix : a <:+ text.take i := ⟨before, htext.symm⟩
  have hsuffix' : b <:+ text.take i := ⟨before', htext'.symm⟩
  rcases List.suffix_or_suffix_of_suffix hsuffix hsuffix' with hab | hba
  · exact eq_of_suffix a ha b hb hab
  · exact (eq_of_suffix b hb a ha hba).symm

theorem not_endsWith_concat_i (ha : a ∈ abbreviations) : ¬ EndsWith (before ++ ['i']) a := by
  obtain ⟨hne, hlast, _⟩ := getLast?_of_listed a ha
  intro h
  rw [← getLast?_of_endsWith hne h, List.getLast?_concat] at hlast
  exact hlast rfl

theorem eq_of_endsWith_concat_e (ha : a ∈ abbreviations)
    (hboundary : ∀ c ∈ before.getLast?, isWordChar c = false)
    (h : EndsWith (before ++ ['e']) a) : a = thatIs := by
  obtain ⟨hne, _, hlast⟩ := getLast?_of_listed a ha
  rw [← getLast?_of_endsWith hne h, List.getLast?_concat] at hlast
  refine (hlast rfl).resolve_left ?_
  rintro rfl
  obtain ⟨start, hstart, _⟩ := h
  have hbefore : before = start ++ ['A', 'v'] := by
    refine (List.append_left_inj ['e']).1 (hstart.trans ?_)
    rw [List.append_assoc]
    rfl
  have hv := hboundary 'v' (by rw [hbefore, List.getLast?_append_cons]; rfl)
  rw [isWordChar_of_isAlphanum (by decide)] at hv
  cases hv

/-- Of the listed abbreviations only `i.e` is masked inside another one, and that is `e.g`. -/
theorem maskFrom_listed (ha : a ∈ abbreviations) (hb : b ∈ abbreviations)
    (hboundary : ∀ c ∈ before.getLast?, isWordChar c = false) :
    maskFrom a before.reverse b = b ↔
      ¬ (a = thatIs ∧ b = forExample ∧ EndsWith (before ++ ['e']) thatIs) := by
  by_cases hstop : '.' ∈ b
  · rcases eq_of_inner_stop b hb hstop with rfl | rfl
    · refine (maskFrom_dotted (by decide) (by decide)).trans (iff_of_true ?_ ?_)
      · exact not_endsWith_concat_i ha
      · rintro ⟨_, hne, _⟩
        exact absurd hne (by decide)
    · refine (maskFrom_dotted (by decide) (by decide)).trans (not_congr ?_)
      constructor
      · intro h
        obtain rfl := eq_of_endsWith_concat_e ha hboundary h
        exact ⟨rfl, rfl, h⟩
      · rintro ⟨rfl, _, h⟩
        exact h
  · refine iff_of_true (maskFrom_eq_self_of_no_stop hstop) ?_
    rintro ⟨_, rfl, _⟩
    exact hstop (by decide)

/-- Where `e.g` ends a text, `i.e` may end it two characters earlier. -/
theorem abbreviates_inside (hi : i < text.length) (h : text.take i = before ++ forExample) :
    Abbreviates text thatIs (i - 2) ↔ EndsWith (before ++ ['e']) thatIs := by
  have hlength := congrArg List.length h
  rw [List.length_take_of_le hi.le, List.length_append,
    show forExample.length = 3 by decide] at hlength
  have hplace : i - 2 = (before ++ ['e']).length := by
    rw [List.length_append, List.length_singleton]
    omega
  have hsplit : text.take i = (before ++ ['e']) ++ ['.', 'g'] := by
    rw [h, List.append_assoc]
    rfl
  have hstop : text[i - 2]? = some '.' := by
    rw [← List.getElem?_take_of_lt (show i - 2 < i by omega), hsplit, hplace,
      List.getElem?_append_right le_rfl, Nat.sub_self]
    rfl
  have htake : text.take (i - 2) = before ++ ['e'] := by
    rw [← Nat.min_eq_left (Nat.sub_le i 2), ← List.take_take, hsplit, hplace, List.take_left]
  rw [Abbreviates, htake]
  exact and_iff_right hstop

theorem abbreviates_runTogether_iff : Abbreviates text runTogether i ↔
    Abbreviates text forExample i ∧ Abbreviates text thatIs (i - 2) := by
  constructor
  · rintro ⟨hstop, start, htake, hboundary⟩
    have hi := (List.getElem?_eq_some_iff.1 hstop).1
    have hsplit : text.take i = (start ++ ['i', '.']) ++ forExample := by
      rw [htake, List.append_assoc]
      rfl
    refine ⟨⟨hstop, _, hsplit, fun c hc => ?_⟩, (abbreviates_inside hi hsplit).2 ?_⟩
    · rw [List.getLast?_append_cons] at hc
      obtain rfl := Option.some.inj hc
      exact isWordChar_stop
    · refine ⟨start, ?_, hboundary⟩
      rw [List.append_assoc]
      rfl
  · rintro ⟨⟨hstop, before, htake, _⟩, hinside⟩
    have hi := (List.getElem?_eq_some_iff.1 hstop).1
    obtain ⟨start, hstart, hboundary⟩ := (abbreviates_inside hi htake).1 hinside
    have hbefore : before = start ++ ['i', '.'] := by
      refine (List.append_left_inj ['e']).1 (hstart.trans ?_)
      rw [List.append_assoc]
      rfl
    refine ⟨hstop, start, ?_, hboundary⟩
    rw [htake, hbefore, List.append_assoc]
    rfl

theorem take_maskFrom (a text : List Char) (i : Nat) :
    (maskFrom a [] text).take i = maskFrom a [] (text.take i) := by
  have hsplit := maskFrom_append a [] (text.take i) (text.drop i)
  have hlength : (maskFrom a [] (text.take i)).length ≤ i := by
    rw [length_maskFrom]
    exact List.length_take_le i text
  rw [List.take_append_drop] at hsplit
  by_cases hi : i ≤ text.length
  · rw [hsplit]
    refine List.take_left' ?_
    rw [length_maskFrom, List.length_take_of_le hi]
  · rw [List.take_of_length_le (not_le.1 hi).le, List.take_of_length_le]
    rw [length_maskFrom]
    exact (not_le.1 hi).le

/-- One mask takes nothing from another abbreviation, save that of `i.e` from `e.g`. -/
theorem abbreviates_maskFrom (ha : a ∈ abbreviations) (hb : b ∈ abbreviations) (hne : a ≠ b) :
    Abbreviates (maskFrom a [] text) b i ↔
      Abbreviates text b i ∧ ¬ (a = thatIs ∧ b = forExample ∧ Abbreviates text thatIs (i - 2)) := by
  have hword : EndsWith (maskFrom a [] (text.take i)) b ↔ EndsWith (text.take i) b ∧
      ∀ before, text.take i = before ++ b → maskFrom a before.reverse b = b :=
    endsWith_maskFrom (maskChar_not_mem_of_listed b hb)
  rw [Abbreviates, take_maskFrom, hword, getElem?_maskFrom]
  constructor
  · rintro ⟨hread, hends, hkept⟩
    have hstop : text[i]? = some '.' := by
      split at hread
      · exact absurd (Option.some.inj hread) (by decide)
      · exact hread
    refine ⟨⟨hstop, hends⟩, ?_⟩
    rintro ⟨rfl, rfl, hinside⟩
    obtain ⟨before, htake, hboundary⟩ := hends
    have hi := (List.getElem?_eq_some_iff.1 hstop).1
    exact (maskFrom_listed ha hb hboundary).1 (hkept before htake)
      ⟨rfl, rfl, (abbreviates_inside hi htake).1 hinside⟩
  · rintro ⟨⟨hstop, hends⟩, hfree⟩
    have hi := (List.getElem?_eq_some_iff.1 hstop).1
    have hother : ¬ Abbreviates text a i := fun h =>
      hne (eq_of_abbreviates ha hb h ⟨hstop, hends⟩)
    refine ⟨(if_neg hother).trans hstop, hends, fun before htake => ?_⟩
    obtain ⟨before', htake', hboundary⟩ := hends
    obtain rfl := (List.append_left_inj b).1 (htake'.symm.trans htake)
    refine (maskFrom_listed ha hb hboundary).2 ?_
    rintro ⟨rfl, rfl, hinside⟩
    exact hfree ⟨rfl, rfl, (abbreviates_inside hi htake).2 hinside⟩

def Masked (order : List (List Char)) (text : List Char) (i : Nat) : Prop :=
  ∃ a ∈ order, Abbreviates text a i ∧
    ¬ (a = forExample ∧ [thatIs, forExample].Sublist order ∧ Abbreviates text thatIs (i - 2))

instance : Decidable (Masked order text i) := List.decidableBEx _ _

theorem masked_cons (ha : a ∈ abbreviations) (horder : ∀ b ∈ order, b ∈ abbreviations)
    (hnew : a ∉ order) :
    Masked (a :: order) text i ↔ Abbreviates text a i ∨ Masked order (maskFrom a [] text) i := by
  have hfirst : [thatIs, forExample].Sublist (a :: order) ↔
      [thatIs, forExample].Sublist order ∨ thatIs = a ∧ forExample ∈ order := by
    rw [List.cons_sublist_cons', List.singleton_sublist]
  have hboth (h : [thatIs, forExample].Sublist order) : thatIs ∈ order ∧ forExample ∈ order :=
    ⟨h.subset List.mem_cons_self, h.subset (List.mem_cons_of_mem _ List.mem_cons_self)⟩
  constructor
  · rintro ⟨b, hb, hword, hfree⟩
    by_cases hab : Abbreviates text a i
    · exact Or.inl hab
    · have hlater := (List.mem_cons.1 hb).resolve_left fun hba => hab (hba ▸ hword)
      have hne : a ≠ b := fun hab => hnew (hab ▸ hlater)
      refine Or.inr ⟨b, hlater, (abbreviates_maskFrom ha (horder b hlater) hne).2 ⟨hword, ?_⟩, ?_⟩
      · rintro ⟨rfl, rfl, hinside⟩
        exact hfree ⟨rfl, hfirst.2 (Or.inr ⟨rfl, hlater⟩), hinside⟩
      · rintro ⟨rfl, hsub, hinside⟩
        have hne : a ≠ thatIs := fun hab => hnew (hab ▸ (hboth hsub).1)
        have hinside := ((abbreviates_maskFrom ha thatIs_mem hne).1 hinside).1
        exact hfree ⟨rfl, hfirst.2 (Or.inl hsub), hinside⟩
  · rintro (hword | ⟨b, hb, hword, hfree⟩)
    · refine ⟨a, List.mem_cons_self, hword, ?_⟩
      rintro ⟨rfl, hsub, _⟩
      rcases hfirst.1 hsub with hsub | ⟨_, hmem⟩
      · exact hnew (hboth hsub).2
      · exact hnew hmem
    · have hne : a ≠ b := fun hab => hnew (hab ▸ hb)
      obtain ⟨hword, hkept⟩ := (abbreviates_maskFrom ha (horder b hb) hne).1 hword
      refine ⟨b, List.mem_cons_of_mem a hb, hword, ?_⟩
      rintro ⟨rfl, hsub, hinside⟩
      rcases hfirst.1 hsub with hsub | ⟨rfl, _⟩
      · have hne : a ≠ thatIs := fun hab => hnew (hab ▸ (hboth hsub).1)
        refine hfree ⟨rfl, hsub, (abbreviates_maskFrom ha thatIs_mem hne).2 ⟨hinside, ?_⟩⟩
        exact fun h => absurd h.2.1 (by decide)
      · exact hkept ⟨rfl, rfl, hinside⟩

theorem getElem?_mask (horder : ∀ a ∈ order, a ∈ abbreviations) (hnodup : order.Nodup)
    (text : List Char) (i : Nat) :
    (mask order text)[i]? = if Masked order text i then some maskChar else text[i]? := by
  induction order generalizing text with
  | nil => exact (if_neg fun h => nomatch h.choose_spec.1).symm
  | cons a order ih =>
      obtain ⟨ha, horder⟩ := List.forall_mem_cons.1 horder
      obtain ⟨hnew, hnodup⟩ := List.nodup_cons.1 hnodup
      have hcons : Masked (a :: order) text i ↔
          Abbreviates text a i ∨ Masked order (maskFrom a [] text) i := masked_cons ha horder hnew
      calc (mask (a :: order) text)[i]? = (mask order (maskFrom a [] text))[i]? := rfl
        _ = if Masked order (maskFrom a [] text) i then some maskChar else
              if Abbreviates text a i then some maskChar else text[i]? := by
          rw [ih horder hnodup, getElem?_maskFrom]
        _ = if Masked (a :: order) text i then some maskChar else text[i]? := by
          by_cases hlater : Masked order (maskFrom a [] text) i
          · rw [if_pos hlater, if_pos (hcons.2 (Or.inr hlater))]
          · rw [if_neg hlater]
            exact if_congr (hcons.trans (or_iff_left hlater)).symm rfl rfl

end Listed

section Search

open Pattern

variable {ahead : List Char} {parts : List (List Char)}

def abbreviation (a : List Char) : Pattern :=
  .look (fun before _ => before.head?.all fun c => !isWordChar c) :: literal (a ++ ['.'])

theorem reads_abbreviation_iff : Reads (abbreviation a) before.reverse ahead parts ↔
    (∀ c ∈ before.getLast?, isWordChar c = false) ∧ a ++ ['.'] <+: ahead ∧
      parts = (a ++ ['.']).map fun c => [c] := by
  refine reads_look_iff.trans (and_congr ?_ reads_literal_iff)
  rw [List.head?_reverse]
  cases before.getLast? <;> simp

theorem not_overlap : ∀ a ∈ abbreviations, ∀ d < (a ++ ['.']).length, 0 < d →
    ¬ (a ++ ['.']).drop d <+: a ++ ['.'] := by decide

theorem abbreviates_iff_split : Abbreviates text a i ↔ ∃ before rest,
    text = before ++ (a ++ ['.'] ++ rest) ∧ (∀ c ∈ before.getLast?, isWordChar c = false) ∧
      i = before.length + a.length := by
  constructor
  · rintro ⟨hstop, before, htake, hboundary⟩
    obtain ⟨hi, hread⟩ := List.getElem?_eq_some_iff.1 hstop
    have hlength := congrArg List.length htake
    rw [List.length_take_of_le hi.le, List.length_append] at hlength
    refine ⟨before, text.drop (i + 1), ?_, hboundary, hlength⟩
    rw [List.append_assoc, ← List.append_assoc before, ← htake, List.singleton_append, ← hread,
      ← List.drop_eq_getElem_cons hi, List.take_append_drop]
  · rintro ⟨before, rest, rfl, hboundary, rfl⟩
    have hsplit : before ++ (a ++ ['.'] ++ rest) = (before ++ a) ++ '.' :: rest := by simp
    rw [hsplit, ← List.length_append]
    refine ⟨?_, before, List.take_left, hboundary⟩
    rw [List.getElem?_append_right le_rfl, Nat.sub_self]
    rfl

theorem abbreviates_iff_hit (ha : a ∈ abbreviations) :
    Abbreviates text a i ↔ ∃ h ∈ (abbreviation a).hits text, h.span.stop = i + 1 := by
  have hsplit {h : Hit} (hm : h ∈ (abbreviation a).hits text) : ∃ before rest,
      text = before ++ (a ++ ['.'] ++ rest) ∧ (∀ c ∈ before.getLast?, isWordChar c = false) ∧
        h.start = before.length ∧ h.span.stop = before.length + a.length + 1 := by
    obtain ⟨hstart, hreads⟩ := reads_of_mem_hits hm
    obtain ⟨hboundary, ⟨rest, hrest⟩, hparts⟩ := reads_abbreviation_iff.1 hreads
    have hlength := List.length_take_of_le hstart.le
    refine ⟨_, rest, by rw [hrest, List.take_append_drop], hboundary, hlength.symm, ?_⟩
    rw [hlength, Hit.span, hparts, ← List.flatMap_def, List.flatMap_singleton',
      List.length_append, List.length_singleton, Nat.add_assoc]
  rw [abbreviates_iff_split]
  constructor
  · rintro ⟨before, rest, htext, hboundary, rfl⟩
    have hreads : Reads (abbreviation a) (text.take before.length).reverse
        (text.drop before.length) ((a ++ ['.']).map fun c => [c]) := by
      rw [htext, List.take_left, List.drop_left]
      exact reads_abbreviation_iff.2 ⟨hboundary, List.prefix_append _ _, rfl⟩
    have hlt : before.length < text.length := by
      rw [htext, List.length_append, List.length_append, List.length_append]
      exact Nat.lt_add_of_pos_right (by simp only [List.length_singleton]; omega)
    obtain ⟨h, hm, hle, hplace⟩ := exists_mem_hits hlt hreads
    obtain ⟨before', rest', htext', _, hstart, hstop⟩ := hsplit hm
    have hword : (a ++ ['.']).length = a.length + 1 := List.length_append
    refine ⟨h, hm, ?_⟩
    rcases hplace with hplace | hplace
    · omega
    · -- a hit that begins earlier would overlap the abbreviation with itself
      by_contra hne
      exact not_overlap a ha _ (by omega) (by omega)
        (drop_prefix_of_overlap (htext'.symm.trans htext) (by omega) (by omega))
  · rintro ⟨h, hm, hstop⟩
    obtain ⟨before, rest, htext, hboundary, _, hend⟩ := hsplit hm
    exact ⟨before, rest, htext, hboundary, by omega⟩

end Search

section Whole

variable (hperm : order.Perm abbreviations)

include hperm

/-- Every full stop behind a listed abbreviation is masked, save the last one of `i.e.g.` if `i.e`
has its turn before `e.g`. -/
theorem masked_iff : Masked order text i ↔ (∃ a ∈ abbreviations, Abbreviates text a i) ∧
    ¬ ([thatIs, forExample].Sublist order ∧ Abbreviates text runTogether i) := by
  constructor
  · rintro ⟨a, ha, hword, hfree⟩
    have ha := hperm.mem_iff.1 ha
    refine ⟨⟨a, ha, hword⟩, ?_⟩
    rintro ⟨hsub, hboth⟩
    obtain ⟨hword', hinside⟩ := abbreviates_runTogether_iff.1 hboth
    exact hfree ⟨eq_of_abbreviates ha forExample_mem hword hword', hsub, hinside⟩
  · rintro ⟨⟨a, ha, hword⟩, hfree⟩
    refine ⟨a, hperm.mem_iff.2 ha, hword, ?_⟩
    rintro ⟨rfl, hsub, hinside⟩
    exact hfree ⟨hsub, abbreviates_runTogether_iff.2 ⟨hword, hinside⟩⟩

theorem getElem?_mask_of_perm (text : List Char) (i : Nat) :
    (mask order text)[i]? = if Masked order text i then some maskChar else text[i]? :=
  getElem?_mask (fun _ ha => hperm.mem_iff.1 ha) (hperm.nodup_iff.2 nodup_abbreviations) text i

end Whole

end Retrieval.Sentence
