import Mathlib.Algebra.Order.Ring.Int
import Retrieval.Table

/-!
# Tables with one value for a name

Setting keeps names apart. Where they are apart, erasing a name takes away just the entry under it.
-/

namespace Retrieval.Table

variable {α : Type} {t : Table α}

theorem get?_eq_none {key : String} (h : key ∉ t.keys) : t.get? key = none := by
  cases hg : t.get? key with
  | none => rfl
  | some value => exact absurd (List.mem_map_of_mem (mem_of_get? hg)) h

theorem get?_of_mem (h : t.keys.Nodup) {key : String} {value : α} (hm : (key, value) ∈ t) :
    t.get? key = some value := by
  induction t with
  | nil => cases hm
  | cons e rest ih =>
      obtain ⟨name, old⟩ := e
      obtain ⟨hname, hrest⟩ := List.nodup_cons.1 h
      rw [get?_cons]
      rcases List.mem_cons.1 hm with he | hm
      · cases he
        exact if_pos rfl
      · have hkey : key ∈ rest.map Prod.fst := List.mem_map_of_mem hm
        have hne : name ≠ key := fun he => hname (he ▸ hkey)
        rw [if_neg hne]
        exact ih hrest hm

theorem filter_ne_eq_self {key : String} (h : key ∉ t.keys) :
    (t.filter fun e => e.1 ≠ key) = t := by
  apply List.filter_eq_self.2
  intro e he
  have hk : e.1 ∈ t.keys := List.mem_map_of_mem he
  rw [decide_eq_true_eq]
  exact fun hn => h (hn ▸ hk)

theorem erase_eq_filter (h : t.keys.Nodup) (key : String) :
    t.erase key = t.filter fun e => e.1 ≠ key := by
  induction t with
  | nil => rfl
  | cons entry rest ih =>
      obtain ⟨name, value⟩ := entry
      obtain ⟨hname, hrest⟩ := List.nodup_cons.1 h
      by_cases hn : name = key
      · subst hn
        rw [erase, if_pos rfl, List.filter_cons, if_neg (by simp), filter_ne_eq_self hname]
      · rw [erase, if_neg hn, List.filter_cons, if_pos (by simpa using hn), ih hrest]

theorem get?_erase_self (h : t.keys.Nodup) (key : String) : (t.erase key).get? key = none := by
  rw [erase_eq_filter h]
  apply get?_eq_none
  intro hm
  obtain ⟨e, he, rfl⟩ := List.mem_map.1 hm
  simp at he

theorem nodup_keys_of_sublist {u : Table α} (hs : u.Sublist t) (h : t.keys.Nodup) :
    u.keys.Nodup :=
  h.sublist (hs.map _)

theorem mem_keys_set {key other : String} {value : α} :
    other ∈ (t.set key value).keys ↔ other ∈ t.keys ∨ other = key := by
  induction t with
  | nil => simp [set, keys]
  | cons entry rest ih =>
      obtain ⟨name, old⟩ := entry
      rw [set]
      split
      · next hn =>
          subst hn
          exact (or_iff_left_of_imp fun he => he ▸ List.mem_cons_self).symm
      · rw [keys, keys, List.map_cons, List.map_cons, List.mem_cons, List.mem_cons, or_assoc]
        exact or_congr_right ih

theorem keys_set_of_mem {key : String} (h : key ∈ t.keys) (value : α) :
    (t.set key value).keys = t.keys := by
  induction t with
  | nil => cases h
  | cons e rest ih =>
      obtain ⟨name, old⟩ := e
      rw [set]
      by_cases hn : name = key
      · rw [if_pos hn]
        rfl
      · rw [if_neg hn]
        have hrest : key ∈ keys rest := (List.mem_cons.1 h).resolve_left (Ne.symm hn)
        exact congrArg (name :: ·) (ih hrest)

theorem set_of_get? {key : String} {value : α} (h : t.get? key = some value) :
    t.set key value = t := by
  induction t with
  | nil => cases h
  | cons e rest ih =>
      obtain ⟨name, old⟩ := e
      rw [get?_cons] at h
      rw [set]
      by_cases hn : name = key
      · rw [if_pos hn] at h ⊢
        rw [Option.some.inj h]
      · rw [if_neg hn] at h ⊢
        rw [ih h]

theorem nodup_keys_set (h : t.keys.Nodup) (key : String) (value : α) :
    (t.set key value).keys.Nodup := by
  induction t with
  | nil => simp [set, keys]
  | cons entry rest ih =>
      obtain ⟨name, old⟩ := entry
      obtain ⟨hname, hrest⟩ := List.nodup_cons.1 h
      rw [set]
      split
      · exact h
      · next hn =>
          refine List.nodup_cons.2 ⟨fun hm => ?_, ih hrest⟩
          rcases mem_keys_set.1 hm with hm | rfl
          · exact hname hm
          · exact hn rfl

theorem nodup_keys_update (h : t.keys.Nodup) (others : List (String × α)) :
    (t.update others).keys.Nodup := by
  induction others generalizing t with
  | nil => exact h
  | cons e later ih =>
      rw [update, List.foldl_cons]
      exact ih (nodup_keys_set h e.1 e.2)

theorem get?_update (t : Table α) (others : List (String × α)) (key : String) :
    (t.update others).get? key = t.get? key ∨
      ∃ value, (key, value) ∈ others ∧ (t.update others).get? key = some value := by
  induction others generalizing t with
  | nil => exact Or.inl rfl
  | cons e later ih =>
      obtain ⟨name, new⟩ := e
      show (update (t.set name new) later).get? key = _ ∨ _
      rcases ih (t.set name new) with h | ⟨value, hmem, h⟩
      · rw [h]
        by_cases hn : name = key
        · subst hn
          exact Or.inr ⟨new, List.mem_cons_self, h.trans (get?_set_self t name new)⟩
        · exact Or.inl (get?_set_of_ne hn t new)
      · exact Or.inr ⟨value, List.mem_cons_of_mem _ hmem, h⟩

theorem get?_update_of_nodup {others : List (String × α)} (h : (keys others).Nodup) (t : Table α)
    (key : String) : (t.update others).get? key = (get? others key).or (t.get? key) := by
  induction others generalizing t with
  | nil => rfl
  | cons e later ih =>
      obtain ⟨name, new⟩ := e
      obtain ⟨hname, hlater⟩ := List.nodup_cons.1 h
      show (update (t.set name new) later).get? key = _
      rw [ih hlater, get?_cons]
      by_cases hn : name = key
      · subst hn
        rw [get?_eq_none hname, get?_set_self, if_pos rfl]
        rfl
      · rw [get?_set_of_ne hn, if_neg hn]

theorem get?_append (t others : Table α) (key : String) :
    get? (t ++ others) key = (t.get? key).or (others.get? key) := by
  induction t with
  | nil => rfl
  | cons e rest ih =>
      obtain ⟨name, value⟩ := e
      rw [List.cons_append, get?_cons, get?_cons, ih]
      split <;> rfl

theorem get?_setDefaults (t : Table α) (others : List (String × α)) (key : String) :
    get? (others.foldl (fun acc e => acc.setDefault e.1 e.2) t) key =
      (t.get? key).or (get? others key) := by
  induction others generalizing t with
  | nil => simp
  | cons e rest ih =>
      obtain ⟨name, value⟩ := e
      rw [List.foldl_cons, ih, get?_setDefault, get?_cons]
      by_cases hn : name = key
      · subst hn
        cases t.get? name <;> simp
      · rw [if_neg hn, if_neg hn]

theorem nodup_keys_setDefaults (h : t.keys.Nodup) (others : List (String × α)) :
    (keys (others.foldl (fun acc e => acc.setDefault e.1 e.2) t)).Nodup := by
  induction others generalizing t with
  | nil => exact h
  | cons e later ih =>
      rw [List.foldl_cons]
      refine ih ?_
      unfold setDefault
      split
      · exact h
      · exact nodup_keys_set h e.1 e.2

theorem mem_of_mem_setDefaults {t : Table α} {others : List (String × α)} {entry : String × α}
    (h : entry ∈ others.foldl (fun acc e => acc.setDefault e.1 e.2) t) :
    entry ∈ t ∨ entry ∈ others := by
  induction others generalizing t with
  | nil => exact Or.inl h
  | cons e rest ih =>
      rw [List.foldl_cons] at h
      rcases ih h with h | h
      · unfold setDefault at h
        split at h
        · exact Or.inl h
        · exact (mem_of_mem_set h).imp_right fun he => List.mem_cons.2 (Or.inl he)
      · exact Or.inr (List.mem_cons_of_mem _ h)

theorem sum_set (t : Table α) (key : String) (value : α) (f : α → Nat) :
    ((t.set key value).values.map f).sum + ((t.get? key).map f).getD 0 =
      (t.values.map f).sum + f value := by
  induction t with
  | nil => simp [set, values]
  | cons e rest ih =>
      obtain ⟨name, old⟩ := e
      simp only [values] at ih
      rw [set, get?_cons]
      by_cases hn : name = key
      · simp only [if_pos hn, values, List.map_cons, List.sum_cons, Option.map_some,
          Option.getD_some]
        omega
      · simp only [if_neg hn, values, List.map_cons, List.sum_cons]
        omega

theorem set_perm (h : t.keys.Nodup) (key : String) (value : α) :
    (t.set key value).Perm ((key, value) :: t.filter fun e => e.1 ≠ key) := by
  induction t with
  | nil => exact .refl _
  | cons entry rest ih =>
      obtain ⟨name, old⟩ := entry
      obtain ⟨hname, hrest⟩ := List.nodup_cons.1 h
      by_cases hn : name = key
      · subst hn
        rw [set, if_pos rfl, List.filter_cons, if_neg (by simp), filter_ne_eq_self hname]
      · rw [set, if_neg hn, List.filter_cons, if_pos (by simpa using hn)]
        exact ((ih hrest).cons _).trans (.swap _ _ _)

theorem update_perm {others : Table α} (h : t.keys.Nodup) (ho : others.keys.Nodup) :
    (t.update others).Perm (others ++ t.filter fun e => e.1 ∉ others.keys) := by
  induction others generalizing t with
  | nil =>
      have hall : (t.filter fun e => e.1 ∉ keys ([] : Table α)) = t :=
        List.filter_eq_self.2 fun e _ => by simp [keys]
      rw [hall]
      exact .refl _
  | cons entry rest ih =>
      obtain ⟨key, value⟩ := entry
      obtain ⟨hkey, hrest⟩ := List.nodup_cons.1 ho
      have hset := (set_perm h key value).filter fun e => e.1 ∉ keys rest
      have hfirst : decide (key ∉ keys rest) = true := decide_eq_true hkey
      rw [List.filter_cons, if_pos hfirst, List.filter_filter] at hset
      have hsame : (t.filter fun e => decide (e.1 ∉ keys rest) && decide (e.1 ≠ key)) =
          t.filter fun e => e.1 ∉ keys ((key, value) :: rest) := by
        apply List.filter_congr
        intro e _
        have hkeys : keys ((key, value) :: rest) = key :: keys rest := rfl
        simp [hkeys, Bool.and_comm]
      rw [hsame] at hset
      -- No later entry has the first name, so the first entry can stand before all of them.
      have hmoved := (List.Perm.append_left rest hset).trans List.perm_middle
      exact (ih (nodup_keys_set h key value) hrest).trans hmoved

theorem set_of_new {key : String} (h : key ∉ t.keys) (value : α) :
    t.set key value = t ++ [(key, value)] := by
  induction t with
  | nil => rfl
  | cons entry rest ih =>
      obtain ⟨name, old⟩ := entry
      obtain ⟨hne, hrest⟩ := List.ne_and_not_mem_of_not_mem_cons h
      rw [set, if_neg hne.symm, ih hrest, List.cons_append]

theorem update_of_new {others : Table α} (hnew : ∀ e ∈ others, e.1 ∉ t.keys)
    (ho : others.keys.Nodup) : t.update others = t ++ others := by
  induction others generalizing t with
  | nil => exact (List.append_nil t).symm
  | cons entry rest ih =>
      obtain ⟨key, value⟩ := entry
      obtain ⟨hkey, hrest⟩ := List.nodup_cons.1 ho
      have hset := set_of_new (hnew _ List.mem_cons_self) value
      have hlater : ∀ e ∈ rest, e.1 ∉ keys (t.set key value) := by
        intro e he hm
        rcases mem_keys_set.1 hm with hm | hm
        · exact hnew e (List.mem_cons_of_mem _ he) hm
        · have hmem : e.1 ∈ keys rest := List.mem_map_of_mem he
          exact hkey (hm ▸ hmem)
      rw [update, List.foldl_cons]
      have hrest := ih hlater hrest
      rw [update] at hrest
      rw [hrest, hset, List.append_assoc]
      rfl

end Retrieval.Table
