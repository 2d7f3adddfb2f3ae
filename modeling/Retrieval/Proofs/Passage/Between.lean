import Retrieval.Passage.Range
import Retrieval.Proofs.Passage.Parting

/-!
# Pieces between breaks

Breaks are stretches of a text with nothing visible in them. What lies between them, without the
blanks around it, are units that part neighbours exactly at the breaks. The ranges between positions
are the case in which every break is empty.
-/

namespace Retrieval

open Text

namespace Span

def skipBlanks (text : List Char) : (start n : Nat) → Nat
  | start, 0 => start
  | start, n + 1 => if text[start]?.all isBlank then skipBlanks text (start + 1) n else start

def dropBlanks (text : List Char) (start : Nat) : (n : Nat) → Nat
  | 0 => start
  | n + 1 => if text[start + n]?.all isBlank then dropBlanks text start n else start + n + 1

def trim? (text : List Char) (s : Span) : Option Span :=
  let start := skipBlanks text s.start s.length
  let stop := dropBlanks text start (s.stop - start)
  if start < stop then some ⟨start, stop⟩ else none

/-- What lies between breaks from `start` up to `stop`, without the blanks around it. -/
def between (text : List Char) (start stop : Nat) : (breaks : List Span) → List Span
  | [] => (trim? text ⟨start, stop⟩).toList
  | b :: breaks => (trim? text ⟨start, b.start⟩).toList ++ between text b.stop stop breaks

variable {text : List Char}

theorem slice_append_drop {a b : Nat} (h : a ≤ b) (text : List Char) :
    slice ⟨a, b⟩ text ++ text.drop b = text.drop a := by
  obtain ⟨n, rfl⟩ := Nat.exists_eq_add_of_le h
  rw [slice, length, Nat.add_sub_cancel_left, ← List.drop_drop, List.take_append_drop]

theorem getElem?_slice {s : Span} {i : Nat} (hi : s.Covers i) :
    (s.slice text)[i - s.start]? = text[i]? := by
  have := hi.1
  have := hi.2
  rw [slice, length, List.getElem?_take_of_lt (by omega), List.getElem?_drop,
    Nat.add_sub_cancel' hi.1]

theorem visible_iff_not_all {i : Nat} : Visible text i ↔ ¬ text[i]?.all isBlank = true := by
  rw [Visible]
  cases text[i]? <;> simp

theorem skipBlanks_bounds (text : List Char) (start n : Nat) :
    start ≤ skipBlanks text start n ∧ skipBlanks text start n ≤ start + n ∧
      (∀ k, start ≤ k → k < skipBlanks text start n → ¬ Visible text k) ∧
      (skipBlanks text start n < start + n → Visible text (skipBlanks text start n)) := by
  induction n generalizing start with
  | zero => exact ⟨le_rfl, le_rfl, fun k hk hlt => absurd hlt (by rw [skipBlanks]; omega),
      fun hlt => absurd hlt (lt_irrefl _)⟩
  | succ n ih =>
      rw [skipBlanks]
      split
      · next hblank =>
        obtain ⟨hle, hstop, hskipped, hvisible⟩ := ih (start + 1)
        refine ⟨by omega, by omega, fun k hk hlt => ?_, fun hlt => hvisible (by omega)⟩
        by_cases hks : k = start
        · rw [hks, visible_iff_not_all, not_not]
          exact hblank
        · exact hskipped k (by omega) hlt
      · next hshown =>
        exact ⟨le_rfl, by omega, fun k hk hlt => absurd hlt (by omega),
          fun _ => visible_iff_not_all.2 hshown⟩

theorem dropBlanks_bounds (text : List Char) (start n : Nat) :
    start ≤ dropBlanks text start n ∧ dropBlanks text start n ≤ start + n ∧
      (∀ k, dropBlanks text start n ≤ k → k < start + n → ¬ Visible text k) ∧
      (start < dropBlanks text start n → Visible text (dropBlanks text start n - 1)) := by
  induction n with
  | zero => exact ⟨le_rfl, le_rfl, fun k hk hlt => absurd hlt (by rw [dropBlanks] at hk; omega),
      fun hlt => absurd hlt (lt_irrefl _)⟩
  | succ n ih =>
      rw [dropBlanks]
      split
      · next hblank =>
        obtain ⟨hle, hstop, hdropped, hvisible⟩ := ih
        refine ⟨hle, by omega, fun k hk hlt => ?_, hvisible⟩
        by_cases hks : k = start + n
        · rw [hks, visible_iff_not_all, not_not]
          exact hblank
        · exact hdropped k hk (by omega)
      · next hshown =>
        exact ⟨by omega, le_rfl, fun k hk hlt => absurd hlt (by omega),
          fun _ => visible_iff_not_all.2 hshown⟩

theorem trim?_eq_none {s : Span} (h : trim? text s = none) {i : Nat} (hi : s.Covers i) :
    ¬ Visible text i := by
  obtain ⟨_, hstop, hskipped, _⟩ := skipBlanks_bounds text s.start s.length
  obtain ⟨hle, _, hdropped, _⟩ := dropBlanks_bounds text (skipBlanks text s.start s.length)
    (s.stop - skipBlanks text s.start s.length)
  have hempty := (ite_eq_right_iff.1 h).mt (by simp)
  have := hi.1
  have := hi.2
  by_cases hlt : i < skipBlanks text s.start s.length
  · exact hskipped i hi.1 hlt
  · exact hdropped i (by omega) (by omega)

theorem trim?_eq_some {s w : Span} (h : trim? text s = some w) :
    s.start ≤ w.start ∧ w.start < w.stop ∧ w.stop ≤ s.stop ∧ Visible text w.start ∧
      Visible text (w.stop - 1) ∧ ∀ i, s.Covers i → Visible text i → w.Covers i := by
  obtain ⟨hstart, hbound, hskipped, hfirst⟩ := skipBlanks_bounds text s.start s.length
  obtain ⟨_, hstop, hdropped, hlast⟩ := dropBlanks_bounds text (skipBlanks text s.start s.length)
    (s.stop - skipBlanks text s.start s.length)
  obtain ⟨hlt, rfl⟩ : skipBlanks text s.start s.length < dropBlanks text
      (skipBlanks text s.start s.length) (s.stop - skipBlanks text s.start s.length) ∧ _ = w := by
    simpa only [trim?, Option.ite_none_right_eq_some, Option.some.injEq] using h
  have hlength : s.length = s.stop - s.start := rfl
  refine ⟨hstart, hlt, by dsimp only; omega, hfirst (by omega), hlast hlt, fun i hi hv => ?_⟩
  have := hi.1
  have := hi.2
  constructor
  · by_contra hbefore
    exact hskipped i hi.1 (not_le.1 hbefore) hv
  · by_contra hbehind
    exact hdropped i (not_lt.1 hbehind) (by omega) hv

def Shows (text : List Char) (start stop i : Nat) : Prop :=
  (start ≤ i ∧ i < stop) ∧ Visible text i

/-- Breaks in order between two bounds, with nothing visible in them. -/
def Clears (text : List Char) : (start stop : Nat) → (breaks : List Span) → Prop
  | start, stop, [] => start ≤ stop
  | start, stop, b :: breaks =>
      start ≤ b.start ∧ b.start ≤ b.stop ∧ (∀ i, b.Covers i → ¬ Visible text i) ∧
        Clears text b.stop stop breaks

theorem Clears.le {start stop : Nat} {breaks : List Span} (h : Clears text start stop breaks) :
    start ≤ stop ∧ ∀ b ∈ breaks, start ≤ b.start ∧ b.start ≤ b.stop := by
  induction breaks generalizing start with
  | nil => exact ⟨h, fun _ hb => (nomatch hb)⟩
  | cons b breaks ih =>
      obtain ⟨hstart, hb, _, hlater⟩ := h
      obtain ⟨hstop, hbreaks⟩ := ih hlater
      refine ⟨by omega, List.forall_mem_cons.2 ⟨⟨hstart, hb⟩, fun c hc => ?_⟩⟩
      exact ⟨(hstart.trans hb).trans (hbreaks c hc).1, (hbreaks c hc).2⟩

theorem clears_of_ordered {start stop : Nat} {breaks : List Span}
    (ho : breaks.Pairwise fun a b => a.stop ≤ b.start) (hle : start ≤ stop)
    (hstart : ∀ b ∈ breaks, start ≤ b.start)
    (hb : ∀ b ∈ breaks, b.start ≤ b.stop ∧ b.stop ≤ stop ∧ ∀ i, b.Covers i → ¬ Visible text i) :
    Clears text start stop breaks := by
  induction breaks generalizing start with
  | nil => exact hle
  | cons b breaks ih =>
      obtain ⟨hbehind, ho⟩ := List.pairwise_cons.1 ho
      obtain ⟨⟨horder, hstop, hblank⟩, hlater⟩ := List.forall_mem_cons.1 hb
      exact ⟨hstart b List.mem_cons_self, horder, hblank, ih ho hstop hbehind hlater⟩

/-- What trimming leaves is one unit or none, and parts nothing. -/
theorem parts_trim? (text : List Char) (start stop : Nat) :
    Parts (Shows text start stop) (fun _ _ => False) (trim? text ⟨start, stop⟩).toList := by
  cases h : trim? text ⟨start, stop⟩ with
  | none =>
      refine ⟨⟨fun _ hs => (nomatch hs), .nil, fun i hi => ?_⟩, fun i j hij => ?_⟩
      · exact absurd hi.2 (trim?_eq_none h hi.1)
      · exact absurd hij.first.2 (trim?_eq_none h hij.first.1)
  | some w =>
      obtain ⟨hstart, hlt, hstop, hfirst, hlast, hall⟩ := trim?_eq_some h
      dsimp only at hstart hstop
      refine ⟨⟨?_, List.pairwise_singleton _ _, fun i hi => ?_⟩, fun i j hij => ?_⟩
      · rw [Option.toList_some, List.forall_mem_singleton]
        exact ⟨hlt, ⟨⟨hstart, by omega⟩, hfirst⟩, ⟨⟨by omega, by omega⟩, hlast⟩⟩
      · exact ⟨w, List.mem_singleton_self w, hall i hi.1 hi.2⟩
      · refine iff_of_true ⟨w, List.mem_singleton_self w, ?_, ?_⟩ not_false
        · exact hall i hij.first.1 hij.first.2
        · exact hall j hij.second.1 hij.second.2

/-- The breaks between which neighbours stand apart. -/
def Breaks (breaks : List Span) (i j : Nat) : Prop := ∃ b ∈ breaks, i < b.start ∧ b.stop ≤ j

theorem shows_append {start stop i : Nat} {b : Span} {breaks : List Span}
    (h : Clears text start stop (b :: breaks)) :
    Shows text start b.start i ∨ Shows text b.stop stop i ↔ Shows text start stop i := by
  obtain ⟨hstart, hb, hblank, hlater⟩ := h
  have hstop := hlater.le.1
  constructor
  · rintro (⟨hi, hv⟩ | ⟨hi, hv⟩)
    · exact ⟨by omega, hv⟩
    · exact ⟨by omega, hv⟩
  · rintro ⟨hi, hv⟩
    by_cases hbefore : i < b.start
    · exact Or.inl ⟨⟨hi.1, hbefore⟩, hv⟩
    · refine Or.inr ⟨⟨?_, hi.2⟩, hv⟩
      by_contra hin
      exact hblank i ⟨by omega, by omega⟩ hv

theorem parts_between {start stop : Nat} {breaks : List Span} (h : Clears text start stop breaks) :
    Parts (Shows text start stop) (Breaks breaks) (between text start stop breaks) := by
  induction breaks generalizing start with
  | nil =>
      refine (parts_trim? text start stop).congr fun i j _ => iff_of_false not_false ?_
      rintro ⟨b, hb, _⟩
      cases hb
  | cons b breaks ih =>
      obtain ⟨hstart, hb, hblank, hlater⟩ := id h
      have hboth := (parts_trim? text start b.start).append (ih hlater) (fun i hi => hi.1.2)
        fun i hi => hb.trans hi.1.1
      refine (hboth.of_iff fun i => shows_append h).congr fun i j hij => ?_
      constructor
      · rintro (⟨_, ⟨⟩⟩ | ⟨hi, hj⟩ | ⟨_, c, hc, hic, hcj⟩)
        · refine ⟨b, List.mem_cons_self, hi, ?_⟩
          by_contra hin
          exact hblank j ⟨hj, not_le.1 hin⟩ hij.second.2
        · exact ⟨c, List.mem_cons_of_mem b hc, hic, hcj⟩
      · rintro ⟨c, hc, hic, hcj⟩
        rcases List.mem_cons.1 hc with rfl | hc
        · exact Or.inr (Or.inl ⟨hic, hb.trans hcj⟩)
        · have := hlater.le.2 c hc
          by_cases hi : i < b.start
          · exact Or.inr (Or.inl ⟨hi, by omega⟩)
          · exact Or.inr (Or.inr ⟨not_lt.1 hi, c, hc, hic, hcj⟩)

theorem shows_whole {i : Nat} : Shows text 0 text.length i ↔ Visible text i :=
  ⟨And.right, fun h => ⟨⟨Nat.zero_le i, h.lt_length⟩, h⟩⟩

/-- Positions as breaks in which nothing is lost. -/
def cuts (positions : List Nat) : List Span := positions.map fun p => ⟨p, p⟩

theorem cuts_cons (p : Nat) (positions : List Nat) :
    cuts (p :: positions) = ⟨p, p⟩ :: cuts positions := rfl

section Cuts

variable {start stop : Nat} {positions : List Nat}

theorem clears_cuts (ho : positions.Pairwise (· < ·)) (hle : start ≤ stop)
    (hin : ∀ p ∈ positions, start ≤ p ∧ p ≤ stop) : Clears text start stop (cuts positions) := by
  refine clears_of_ordered (List.pairwise_map.2 (ho.imp Nat.le_of_lt)) hle ?_ ?_
  · intro b hb
    obtain ⟨p, hp, rfl⟩ := List.mem_map.1 hb
    exact (hin p hp).1
  · intro b hb
    obtain ⟨p, hp, rfl⟩ := List.mem_map.1 hb
    exact ⟨le_rfl, (hin p hp).2, fun k hk => absurd (hk.1.trans_lt hk.2) (lt_irrefl _)⟩

theorem eq_between_of_parts {spans : List Span} (ho : positions.Pairwise (· < ·))
    (hin : ∀ p ∈ positions, start ≤ p ∧ p ≤ stop) (hle : start ≤ stop)
    (h : Parts (Shows text start stop) (fun i j => ∃ p ∈ positions, i < p ∧ p ≤ j) spans) :
    spans = between text start stop (cuts positions) := by
  refine h.unique ((parts_between (clears_cuts ho hle hin)).congr fun i j _ => ?_)
  simp only [Breaks, cuts, List.mem_map, exists_exists_and_eq_and]

end Cuts

theorem group_eq_between (closes : Run → Bool) {breaks : List Span}
    (h : Clears text 0 text.length breaks)
    (hb : ∀ i j, Neighbours (Visible text) i j →
      (Breaks breaks i j ↔ ∃ r ∈ Run.ofText text, r.stop = i + 1 ∧ closes r = true)) :
    Run.group closes (Run.ofText text) = between text 0 text.length breaks :=
  (Run.parts_group closes text).unique
    (((parts_between h).of_iff fun _ => shows_whole).congr hb)

end Span

namespace Sentence.Extent

variable {text : List Char} {a b : Nat}

def ofSpan (s : Span) : Extent := ⟨s.start, s.stop⟩

theorem charAt_cast {i : Nat} (h : i < text.length) : charAt text.toArray i = .ok text[i] := by
  rw [charAt, if_pos (Int.natCast_nonneg i)]
  simp [h]

theorem trimStart_cast {n : Nat} (h : a + n ≤ text.length) :
    trimStart text.toArray ⟨a, (a + n : Nat)⟩ =
      .ok ⟨Span.skipBlanks text a n, (a + n : Nat)⟩ := by
  induction n generalizing a with
  | zero =>
      rw [trimStart, if_neg (by simp)]
      rfl
  | succ n ih =>
      have hlt : a < text.length := by omega
      have hlater := ih (a := a + 1) (by omega)
      rw [trimStart, if_pos (by dsimp only; omega), charAt_cast hlt, Span.skipBlanks,
        List.getElem?_eq_getElem hlt, Option.all_some]
      rw [show a + (n + 1) = a + 1 + n by omega]
      cases hc : isBlank text[a] with
      | true => exact (if_pos hc).trans hlater
      | false => exact if_neg (by simp [hc])

theorem trimStop_cast {n : Nat} (h : a + n ≤ text.length) :
    trimStop text.toArray ⟨a, (a + n : Nat)⟩ = .ok ⟨a, Span.dropBlanks text a n⟩ := by
  induction n with
  | zero =>
      rw [trimStop, if_neg (by simp)]
      rfl
  | succ n ih =>
      have hlt : a + n < text.length := by omega
      have hlast : ((a + (n + 1) : Nat) : Int) - 1 = (a + n : Nat) := by omega
      rw [trimStop, if_pos (by dsimp only; omega), hlast, charAt_cast hlt, Span.dropBlanks,
        List.getElem?_eq_getElem hlt, Option.all_some]
      cases hc : isBlank text[a + n] with
      | true => exact (if_pos hc).trans (ih (by omega))
      | false => exact if_neg (by simp [hc])

theorem if_lt_cast (a b : Nat) :
    (if (a : Int) < b then some (⟨a, b⟩ : Extent) else none) =
      (if a < b then some (⟨a, b⟩ : Span) else none).map ofSpan := by
  by_cases hlt : a < b
  · rw [if_pos hlt, if_pos (Int.ofNat_lt.2 hlt)]
    rfl
  · rw [if_neg hlt, if_neg (mt Int.ofNat_lt.1 hlt)]
    rfl

theorem trim?_cast (hab : a ≤ b) (hb : b ≤ text.length) :
    trim? text.toArray ⟨a, b⟩ = .ok ((Span.trim? text ⟨a, b⟩).map ofSpan) := by
  obtain ⟨n, rfl⟩ := Nat.exists_eq_add_of_le hab
  obtain ⟨hstart, hstop, _⟩ := Span.skipBlanks_bounds text a n
  obtain ⟨m, hm⟩ := Nat.exists_eq_add_of_le hstop
  have hlength : Span.length ⟨a, a + n⟩ = n := Nat.add_sub_cancel_left a n
  have hrest : a + n - Span.skipBlanks text a n = m := by omega
  have htrimStop := trimStop_cast (hm ▸ hb)
  rw [← hm] at htrimStop
  rw [trim?, trimStart_cast hb]
  change (trimStop text.toArray ⟨Span.skipBlanks text a n, (a + n : Nat)⟩ >>= _) = _
  rw [htrimStop, Span.trim?, hlength, hrest]
  exact congrArg Except.ok (if_lt_cast _ _)

theorem between_cast {positions : List Nat}
    (h : Span.Clears text a b (Span.cuts positions)) (hb : b ≤ text.length) :
    between text.toArray a b (positions.map Nat.cast) =
      .ok ((Span.between text a b (Span.cuts positions)).map ofSpan) := by
  induction positions generalizing a with
  | nil =>
      rw [List.map_nil, between, trim?_cast h hb]
      exact congrArg Except.ok Option.toList_map
  | cons p positions ih =>
      rw [Span.cuts_cons] at h ⊢
      obtain ⟨hstart, _, _, hlater⟩ := h
      have hp := hlater.le.1
      dsimp only at hstart hp
      rw [List.map_cons, between, trim?_cast hstart (hp.trans hb), ih hlater, Span.between,
        List.map_append, ← Option.toList_map]
      rfl

theorem between_eq_of_parts {positions : List Nat} {spans : List Span}
    (ho : positions.Pairwise (· < ·)) (hin : ∀ p ∈ positions, a ≤ p ∧ p ≤ b) (hle : a ≤ b)
    (hb : b ≤ text.length)
    (h : Parts (Span.Shows text a b) (fun i j => ∃ p ∈ positions, i < p ∧ p ≤ j) spans) :
    between text.toArray a b (positions.map Nat.cast) = .ok (spans.map ofSpan) := by
  rw [between_cast (Span.clears_cuts ho hle hin) hb, ← Span.eq_between_of_parts ho hin hle h]

end Sentence.Extent

end Retrieval
