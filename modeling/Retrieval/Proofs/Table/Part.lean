import Retrieval.Table

/-!
# Parts of a table

The part of a table that a test on its values keeps, in the order of the table. Setting and erasing
a name act on the part alone as long as the values under that name all pass the test, and not at all
on the part as long as none does.
-/

namespace Retrieval.Table

variable {α : Type} {p : α → Bool} {t : Table α} {key : String}

def only (p : α → Bool) (t : Table α) : Table α := t.filter fun entry => p entry.2

/-- Every value under a name does the same in a test. -/
def Uniform (p : α → Bool) (t : Table α) (key : String) (b : Bool) : Prop :=
  ∀ value, (key, value) ∈ t → p value = b

theorem Uniform.tail {entry : String × α} {b : Bool} (h : Uniform p (entry :: t) key b) :
    Uniform p t key b := fun value hv => h value (List.mem_cons_of_mem _ hv)

theorem only_cons (name : String) (value : α) :
    only p ((name, value) :: t) = if p value then (name, value) :: only p t else only p t := by
  simp only [only, List.filter_cons]

theorem mem_only {entry : String × α} : entry ∈ only p t ↔ entry ∈ t ∧ p entry.2 = true := by
  simp [only]

theorem Uniform.set {value : α} {other : String} {b : Bool} (h : Uniform p t key b)
    (hv : other = key → p value = b) : Uniform p (t.set other value) key b := by
  intro w hw
  rcases mem_of_mem_set hw with hw | hw
  · exact h w hw
  · obtain ⟨rfl, rfl⟩ := Prod.mk.inj hw
    exact hv rfl

theorem Uniform.erase {other : String} {b : Bool} (h : Uniform p t key b) :
    Uniform p (t.erase other) key b := fun w hw => h w ((erase_sublist t other).subset hw)

theorem only_set {value : α} (h : Uniform p t key (p value)) :
    only p (t.set key value) = if p value then (only p t).set key value else only p t := by
  induction t with
  | nil => cases hp : p value <;> simp [Table.set, only, hp]
  | cons entry rest ih =>
      obtain ⟨name, old⟩ := entry
      by_cases hn : name = key
      · subst hn
        have hold : p old = p value := h old List.mem_cons_self
        rw [Table.set, if_pos rfl, only_cons, only_cons, hold]
        cases hp : p value with
        | false => simp
        | true => simp [Table.set]
      · rw [Table.set, if_neg hn, only_cons, only_cons, ih h.tail]
        cases hp : p value <;> cases ho : p old <;> simp [Table.set, hn]

theorem only_erase {b : Bool} (h : Uniform p t key b) :
    only p (t.erase key) = if b then (only p t).erase key else only p t := by
  induction t with
  | nil => cases b <;> rfl
  | cons entry rest ih =>
      obtain ⟨name, old⟩ := entry
      by_cases hn : name = key
      · subst hn
        have hold : p old = b := h old List.mem_cons_self
        rw [Table.erase, if_pos rfl, only_cons, hold]
        cases b with
        | false => simp
        | true => simp [Table.erase]
      · rw [Table.erase, if_neg hn, only_cons, only_cons, ih h.tail]
        cases b <;> cases ho : p old <;> simp [Table.erase, hn]

/-- A test that only values of the part can pass finds the same in the part as in the whole. -/
theorem filter_values_only {q : α → Bool} (h : ∀ value, q value = true → p value = true)
    (t : Table α) : (only p t).values.filter q = t.values.filter q := by
  induction t with
  | nil => rfl
  | cons entry rest ih =>
      obtain ⟨name, value⟩ := entry
      simp only [values, List.map_cons] at ih ⊢
      rw [only_cons, List.filter_cons, ← ih]
      cases hq : q value with
      | true => rw [if_pos (h value hq), List.map_cons, List.filter_cons, if_pos hq, if_pos rfl]
      | false =>
          rw [if_neg Bool.false_ne_true]
          split
          · rw [List.map_cons, List.filter_cons, if_neg (by simp [hq])]
          · rfl

theorem has_only (h : Uniform p t key true) : (only p t).has key = t.has key := by
  rw [Bool.eq_iff_iff, has_iff_mem_keys, has_iff_mem_keys]
  simp only [keys, List.mem_map]
  constructor
  · rintro ⟨entry, he, rfl⟩
    exact ⟨entry, (mem_only.1 he).1, rfl⟩
  · rintro ⟨⟨name, value⟩, he, rfl⟩
    exact ⟨(name, value), mem_only.2 ⟨he, h value he⟩, rfl⟩

/-- Entries of which each passes the test, as do the values they replace, are written to the part
as to the whole. -/
theorem only_update {entries : List (String × α)} (hp : ∀ e ∈ entries, p e.2 = true)
    (h : ∀ e ∈ entries, Uniform p t e.1 true) :
    only p (t.update entries) = (only p t).update entries := by
  induction entries generalizing t with
  | nil => rfl
  | cons e rest ih =>
      have hset : only p (t.set e.1 e.2) = (only p t).set e.1 e.2 := by
        rw [only_set (by rw [hp e List.mem_cons_self]; exact h e List.mem_cons_self),
          if_pos (hp e List.mem_cons_self)]
      simp only [update, List.foldl_cons] at ih ⊢
      rw [ih (fun d hd => hp d (List.mem_cons_of_mem _ hd))
        (fun d hd => (h d (List.mem_cons_of_mem _ hd)).set fun _ => hp e List.mem_cons_self), hset]

theorem only_update_of_dropped {entries : List (String × α)} (hp : ∀ e ∈ entries, p e.2 = false)
    (h : ∀ e ∈ entries, Uniform p t e.1 false) : only p (t.update entries) = only p t := by
  induction entries generalizing t with
  | nil => rfl
  | cons e rest ih =>
      have hset : only p (t.set e.1 e.2) = only p t := by
        rw [only_set (by rw [hp e List.mem_cons_self]; exact h e List.mem_cons_self),
          if_neg (by simp [hp e List.mem_cons_self])]
      simp only [update, List.foldl_cons] at ih ⊢
      rw [ih (fun d hd => hp d (List.mem_cons_of_mem _ hd))
        (fun d hd => (h d (List.mem_cons_of_mem _ hd)).set fun _ => hp e List.mem_cons_self), hset]

end Retrieval.Table
