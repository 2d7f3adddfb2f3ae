/-!
# Searching in texts

Occurrences of one list of characters in another, and the cuts made at them.
-/

namespace Retrieval.Text

def occursIn (part : List Char) : List Char → Bool
  | [] => part.isEmpty
  | c :: rest => part.isPrefixOf (c :: rest) || occursIn part rest

theorem occursIn_iff {part text : List Char} : occursIn part text = true ↔ part <:+: text := by
  induction text with
  | nil => simp [occursIn]
  | cons c rest ih => simp [occursIn, ih, List.infix_cons_iff]

def cutAt (mark : Char) : List Char → Option (List Char × List Char)
  | [] => none
  | c :: rest =>
      if c == mark then some ([], rest)
      else (cutAt mark rest).map fun (before, after) => (c :: before, after)

theorem cutAt_eq_some {mark : Char} {text before after : List Char}
    (h : cutAt mark text = some (before, after)) :
    text = before ++ mark :: after ∧ mark ∉ before := by
  induction text generalizing before with
  | nil => simp [cutAt] at h
  | cons c rest ih =>
      by_cases hc : c = mark
      · simp [cutAt, hc] at h
        obtain ⟨rfl, rfl⟩ := h
        simp [hc]
      · simp only [cutAt, beq_iff_eq, hc, if_false, Option.map_eq_some_iff] at h
        obtain ⟨⟨b, a⟩, hr, hb⟩ := h
        cases hb
        obtain ⟨rfl, hm⟩ := ih hr
        exact ⟨rfl, by simp [hm, Ne.symm hc]⟩

theorem cutAt_append {mark : Char} {before : List Char} (h : mark ∉ before) (after : List Char) :
    cutAt mark (before ++ mark :: after) = some (before, after) := by
  induction before with
  | nil => simp [cutAt]
  | cons c rest ih =>
      rw [List.mem_cons, not_or] at h
      have hc : (c == mark) = false := by simp [Ne.symm h.1]
      rw [List.cons_append, cutAt, hc, ih h.2]
      rfl

def cutAtAll (mark : List Char) : List Char → Option (List Char × List Char)
  | [] => if mark.isEmpty then some ([], []) else none
  | c :: rest =>
      if mark.isPrefixOf (c :: rest) then some ([], (c :: rest).drop mark.length)
      else (cutAtAll mark rest).map fun (before, after) => (c :: before, after)

/-- The pieces of a text between its marks, always at least one. -/
def splitAt (mark : Char) : List Char → List (List Char)
  | [] => [[]]
  | c :: rest =>
      if c == mark then [] :: splitAt mark rest
      else match splitAt mark rest with
        | [] => [[c]]
        | piece :: pieces => (c :: piece) :: pieces

/-- The lower-case form of the letters A to Z; every other character stays. -/
def lower (text : String) : String := text.map Char.toLower

end Retrieval.Text
