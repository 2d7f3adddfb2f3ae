import Mathlib.Order.Nat
import Retrieval.Passage.Window

/-!
# Where windows end

The end of a full window is described in positions of the text: it stands behind the last mark that
counts, and a mark counts if it is near enough to the edge and not the first character of the
window. A mark that counts in a window also counts in every earlier window whose edge lies behind
it, which is why later windows never end earlier.
-/

namespace Retrieval.Window

variable {mark : Char} {k : Nat} {window text : List Char} {a s e s' e' : Nat}

def MarksIn (mark : Char) (k : Nat) (window : List Char) (a : Nat) : Prop :=
  window[a]? = some mark ∧ 0 < a ∧ window.length ≤ a + k

theorem marksIn_iff_reverse (h : a < window.length) : MarksIn mark k window a ↔
    (window.reverse.take k)[window.length - 1 - a]? = some mark ∧ 0 < a := by
  have hback : window.length - 1 - (window.length - 1 - a) = a := by omega
  rw [MarksIn, List.getElem?_take]
  split
  · rw [List.getElem?_reverse (by omega), hback]
    exact ⟨fun h => ⟨h.1, h.2.1⟩, fun h => ⟨h.1, h.2, by omega⟩⟩
  · simp only [reduceCtorEq, false_and, iff_false]
    rintro ⟨_, h0, hk⟩
    omega

theorem MarksIn.lt_length (h : MarksIn mark k window a) : a < window.length :=
  (List.getElem?_eq_some_iff.1 h.1).1

theorem behindLast?_eq_some {n : Nat} (h : behindLast? mark k window = some n) :
    ∃ a, MarksIn mark k window a ∧ window.length = a + 1 + n ∧
      ∀ b, MarksIn mark k window b → b ≤ a := by
  rw [behindLast?] at h
  split at h
  · cases h
  · next i hi =>
    split at h
    · next hn =>
      cases h
      obtain ⟨hlt, hm, hfirst⟩ := List.idxOf?_eq_some_iff.1 hi
      have ha : window.length - 1 - (window.length - 1 - n) = n := by omega
      refine ⟨window.length - 1 - n, (marksIn_iff_reverse (by omega)).2 ⟨?_, by omega⟩, by omega,
        fun b hb => ?_⟩
      · rw [ha, List.getElem?_eq_getElem hlt, hm]
      · by_contra hlate
        have hbl := hb.lt_length
        obtain ⟨hlt', hm'⟩ := List.getElem?_eq_some_iff.1 ((marksIn_iff_reverse hbl).1 hb).1
        exact hfirst _ (by omega) hm'
    · cases h

theorem behindLast?_eq_none (h : behindLast? mark k window = none) (a : Nat) :
    ¬ MarksIn mark k window a := by
  intro ha
  have hlt := ha.lt_length
  obtain ⟨hr, h0⟩ := (marksIn_iff_reverse hlt).1 ha
  rw [behindLast?] at h
  split at h
  · next hi => exact List.idxOf?_eq_none_iff.1 hi (List.mem_of_getElem? hr)
  · next i hi =>
    split at h
    · cases h
    · obtain ⟨hib, _, hfirst⟩ := List.idxOf?_eq_some_iff.1 hi
      rw [List.length_take, List.length_reverse] at hib
      obtain ⟨_, hm⟩ := List.getElem?_eq_some_iff.1 hr
      exact hfirst _ (by omega) hm

/-- The mark at `a` counts in the window of the text from `s` to `e`. -/
def Marks (mark : Char) (k : Nat) (text : List Char) (s e a : Nat) : Prop :=
  text[a]? = some mark ∧ s < a ∧ a < e ∧ e ≤ a + k

theorem length_window {budget : Nat} (h : s + budget ≤ text.length) :
    ((text.drop s).take budget).length = budget := by
  rw [List.length_take, List.length_drop]
  omega

theorem marksIn_window {budget : Nat} (h : s + budget ≤ text.length) :
    MarksIn mark k ((text.drop s).take budget) a ↔ Marks mark k text s (s + budget) (s + a) := by
  have hlen := length_window h
  rw [MarksIn, hlen, List.getElem?_take, List.getElem?_drop, Marks]
  split
  · exact and_congr_right fun _ => by omega
  · simp only [reduceCtorEq, false_and, false_iff]
    omega

/-- A mark of a later window that lies before the edge of an earlier one counts there as well. -/
theorem Marks.earlier (h : Marks mark k text s' e' a) (hs : s ≤ s') (he : e ≤ e') (hae : a < e) :
    Marks mark k text s e a :=
  ⟨h.1, hs.trans_lt h.2.1, hae, he.trans h.2.2.2⟩

theorem Marks.later {other : Char} {b k' : Nat} (h : Marks mark k text s e b)
    (ha : Marks other k' text s' e' a) (hab : a < b) (he : e ≤ e') (hk : k' ≤ k) :
    Marks mark k text s' e' b := by
  obtain ⟨hm, _, hbe, _⟩ := h
  obtain ⟨_, hsa, _, hea⟩ := ha
  exact ⟨hm, by omega, by omega, by omega⟩

def LastMark (mark : Char) (k : Nat) (text : List Char) (s e a : Nat) : Prop :=
  Marks mark k text s e a ∧ ∀ b, Marks mark k text s e b → b ≤ a

theorem lastMark_or_none {budget : Nat} (h : s + budget ≤ text.length) :
    (∃ n a, behindLast? mark k ((text.drop s).take budget) = some n ∧
      LastMark mark k text s (s + budget) a ∧ s + budget = a + 1 + n) ∨
    behindLast? mark k ((text.drop s).take budget) = none ∧
      ∀ a, ¬ Marks mark k text s (s + budget) a := by
  have hlen := length_window h
  cases hb : behindLast? mark k ((text.drop s).take budget) with
  | some n =>
      obtain ⟨a, ha, hn, hlast⟩ := behindLast?_eq_some hb
      refine Or.inl ⟨n, s + a, rfl, ⟨(marksIn_window h).1 ha, fun b hm => ?_⟩, by omega⟩
      have hsb := hm.2.1
      have := hlast (b - s) ((marksIn_window h).2 (by rwa [Nat.add_sub_cancel' hsb.le]))
      omega
  | none =>
      refine Or.inr ⟨rfl, fun a hm => behindLast?_eq_none hb (a - s) ?_⟩
      exact (marksIn_window h).2 (by rwa [Nat.add_sub_cancel' hm.2.1.le])

/-- How the window from `s` to `e` is cut: behind its last full stop, else behind its last space,
else at its edge. -/
inductive Snaps (text : List Char) (s e : Nat) : Nat → Prop
  | stop {a : Nat} (last : LastMark '.' stopLookback text s e a) : Snaps text s e (a + 1)
  | space {a : Nat} (none : ∀ b, ¬ Marks '.' stopLookback text s e b)
      (last : LastMark ' ' spaceLookback text s e a) : Snaps text s e (a + 1)
  | edge (none : ∀ b, ¬ Marks '.' stopLookback text s e b)
      (none' : ∀ b, ¬ Marks ' ' spaceLookback text s e b) : Snaps text s e e

theorem snaps_snap {budget : Nat} (h : s + budget ≤ text.length) :
    Snaps text s (s + budget) (s + snap ((text.drop s).take budget)) := by
  have hlen := length_window h
  rw [snap, hlen]
  rcases lastMark_or_none h with ⟨n, a, hb, ha, hn⟩ | ⟨hb, hstop⟩
  · have hsa := ha.1.2.1
    rw [hb]
    dsimp only
    rw [show s + (budget - n) = a + 1 by omega]
    exact .stop ha
  rcases lastMark_or_none h with ⟨n, a, hb', ha, hn⟩ | ⟨hb', hspace⟩
  · have hsa := ha.1.2.1
    rw [hb, hb']
    dsimp only
    rw [show s + (budget - n) = a + 1 by omega]
    exact .space hstop ha
  · rw [hb, hb']
    exact .edge hstop hspace

namespace Snaps

variable {x y : Nat}

theorem bounds (h : Snaps text s e x) (hse : s < e) : s < x ∧ x ≤ e := by
  cases h with
  | stop last => exact ⟨last.1.2.1.trans (Nat.lt_succ_self _), last.1.2.2.1⟩
  | space _ last => exact ⟨last.1.2.1.trans (Nat.lt_succ_self _), last.1.2.2.1⟩
  | edge => exact ⟨hse, le_rfl⟩

/-- No mark that is chosen in the later window can lie before the end of the earlier one: it would
count in the earlier window, and what was chosen there instead would count in the later one. -/
theorem mono (h : Snaps text s e x) (h' : Snaps text s' e' y) (hse : s < e) (hs : s ≤ s')
    (he : e ≤ e') : x ≤ y := by
  have hxe := (h.bounds hse).2
  cases h' with
  | edge => exact hxe.trans he
  | @stop a last =>
      by_contra hlt
      have hmark := last.1.earlier hs he (by omega)
      cases h with
      | @stop b first =>
          have := first.2 a hmark
          have := last.2 b (first.1.later last.1 (by omega) he le_rfl)
          omega
      | space none _ => exact none a hmark
      | edge none _ => exact none a hmark
  | @space a none last =>
      by_contra hlt
      have hmark := last.1.earlier hs he (by omega)
      cases h with
      | @stop b first => exact none b (first.1.later last.1 (by omega) he (by decide))
      | @space b _ first =>
          have := last.2 b (first.1.later last.1 (by omega) he le_rfl)
          omega
      | edge _ none' => exact none' a hmark

end Snaps

end Retrieval.Window
