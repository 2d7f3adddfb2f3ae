/-!
# Tables

A table holds values under names in the order in which the names were first set. Setting a name
again replaces its value in place.
-/

namespace Retrieval

abbrev Table (α : Type) := List (String × α)

namespace Table

variable {α β : Type}

def get? : Table α → String → Option α
  | [], _ => none
  | (name, value) :: rest, key => if name = key then some value else get? rest key

def has (t : Table α) (key : String) : Bool := (t.get? key).isSome

def set : Table α → String → α → Table α
  | [], key, value => [(key, value)]
  | (name, old) :: rest, key, value =>
      if name = key then (name, value) :: rest else (name, old) :: set rest key value

def setDefault (t : Table α) (key : String) (value : α) : Table α :=
  if t.has key then t else t.set key value

def erase : Table α → String → Table α
  | [], _ => []
  | (name, value) :: rest, key => if name = key then rest else (name, value) :: erase rest key

def update (t : Table α) (others : List (String × α)) : Table α :=
  others.foldl (fun acc entry => acc.set entry.1 entry.2) t

def keys (t : Table α) : List String := t.map (·.1)

def values (t : Table α) : List α := t.map (·.2)

@[simp] theorem get?_nil (key : String) : get? ([] : Table α) key = none := rfl

theorem get?_cons (name : String) (value : α) (rest : Table α) (key : String) :
    get? ((name, value) :: rest) key = if name = key then some value else get? rest key := rfl

theorem get?_set (t : Table α) (key : String) (value : α) (other : String) :
    get? (t.set key value) other = if key = other then some value else t.get? other := by
  induction t with
  | nil => rfl
  | cons entry rest ih =>
      obtain ⟨name, old⟩ := entry
      by_cases h : name = key
      · subst h
        simp only [set, if_true, get?_cons]
        split <;> rfl
      · simp only [set, h, if_false, get?_cons, ih]
        by_cases ho : name = other
        · subst ho
          simp [Ne.symm h]
        · simp [ho]

@[simp] theorem get?_set_self (t : Table α) (key : String) (value : α) :
    get? (t.set key value) key = some value := by
  rw [get?_set, if_pos rfl]

theorem get?_set_of_ne {key other : String} (h : key ≠ other) (t : Table α) (value : α) :
    get? (t.set key value) other = t.get? other := by
  rw [get?_set, if_neg h]

theorem get?_setDefault (t : Table α) (key : String) (value : α) (other : String) :
    get? (t.setDefault key value) other =
      if key = other then some ((t.get? key).getD value) else t.get? other := by
  unfold setDefault has
  cases hk : t.get? key with
  | none => simp [get?_set]
  | some v =>
      by_cases h : key = other
      · subst h; simp [hk]
      · simp [h]

theorem mem_of_get? {t : Table α} {key : String} {value : α} (h : t.get? key = some value) :
    (key, value) ∈ t := by
  induction t with
  | nil => cases h
  | cons e rest ih =>
      obtain ⟨name, old⟩ := e
      rw [get?_cons] at h
      by_cases hn : name = key
      · rw [if_pos hn] at h
        cases h
        exact hn ▸ List.mem_cons_self
      · rw [if_neg hn] at h
        exact List.mem_cons_of_mem _ (ih h)

theorem get?_erase_of_ne {key other : String} (h : key ≠ other) (t : Table α) :
    get? (t.erase key) other = t.get? other := by
  induction t with
  | nil => rfl
  | cons entry rest ih =>
      obtain ⟨name, value⟩ := entry
      by_cases hn : name = key
      · subst hn
        rw [erase, if_pos rfl, get?_cons, if_neg h]
      · rw [erase, if_neg hn, get?_cons, get?_cons, ih]

theorem has_iff_mem_keys (t : Table α) (key : String) : t.has key = true ↔ key ∈ t.keys := by
  induction t with
  | nil => simp [has, keys]
  | cons entry rest ih =>
      obtain ⟨name, value⟩ := entry
      simp only [has, keys, get?_cons, List.map_cons, List.mem_cons] at ih ⊢
      by_cases hn : name = key
      · simp [hn]
      · rw [if_neg hn, ih]
        exact ⟨Or.inr, fun h => h.resolve_left (Ne.symm hn)⟩

theorem mem_of_mem_set {t : Table α} {key : String} {value : α} {entry : String × α}
    (h : entry ∈ t.set key value) : entry ∈ t ∨ entry = (key, value) := by
  induction t with
  | nil => exact Or.inr (by simpa [set] using h)
  | cons first rest ih =>
      obtain ⟨name, old⟩ := first
      by_cases hn : name = key
      · subst hn
        rw [set, if_pos rfl] at h
        rcases List.mem_cons.1 h with h | h
        · exact Or.inr h
        · exact Or.inl (List.mem_cons_of_mem _ h)
      · rw [set, if_neg hn] at h
        rcases List.mem_cons.1 h with h | h
        · exact Or.inl (h ▸ List.mem_cons_self)
        · exact (ih h).imp_left (List.mem_cons_of_mem _)

theorem mem_of_mem_update {t : Table α} {others : List (String × α)} {entry : String × α}
    (h : entry ∈ t.update others) : entry ∈ t ∨ entry ∈ others := by
  induction others generalizing t with
  | nil => exact Or.inl h
  | cons first rest ih =>
      simp only [update, List.foldl_cons] at ih h
      rcases ih h with h | h
      · exact (mem_of_mem_set h).imp_right fun he => List.mem_cons.2 (Or.inl he)
      · exact Or.inr (List.mem_cons_of_mem _ h)

theorem erase_sublist (t : Table α) (key : String) : (t.erase key).Sublist t := by
  induction t with
  | nil => exact List.Sublist.slnil
  | cons entry rest ih =>
      obtain ⟨name, value⟩ := entry
      by_cases hn : name = key
      · rw [erase, if_pos hn]
        exact List.sublist_cons_self _ _
      · rw [erase, if_neg hn]
        exact ih.cons_cons _

end Table

end Retrieval
