import Mathlib.Data.List.Induction
import Mathlib.Data.List.Nodup
import Mathlib.Data.List.Perm.Basic
import Retrieval.Proofs.Store.Kept

/-!
# Deleting records by their ids

A deletion by ids is about those of the ids that are there. As long as none of them is named twice,
it takes away their records, leaves everything else as it was, and tells how many it took. An id
that is named again is missing by then: the deletion fails, and what it took before that is gone.
-/

namespace Retrieval

theorem exists_first_repeat {l : List String} (h : ¬ l.Nodup) :
    ∃ before id after, l = before ++ id :: after ∧ before.Nodup ∧ id ∈ before := by
  induction l using List.reverseRecOn with
  | nil => exact absurd List.nodup_nil h
  | append_singleton l last ih =>
      by_cases hl : l.Nodup
      · have hlast : last ∈ l := by
          by_contra hnew
          exact h (List.concat_eq_append ▸ hl.concat hnew)
        exact ⟨l, last, [], rfl, hl, hlast⟩
      · obtain ⟨before, id, after, rfl, hbefore, hid⟩ := ih hl
        exact ⟨before, id, after ++ [last], by simp, hbefore, hid⟩

namespace Table

variable {α : Type} {t : Table α} {gone : List String}

theorem length_filter_not_mem (ht : t.keys.Nodup) (hgone : gone.Nodup)
    (hhas : ∀ key ∈ gone, t.has key = true) :
    (t.filter fun e => e.1 ∉ gone).length + gone.length = t.length := by
  have hperm : (t.keys.filter (· ∈ gone)).Perm gone := by
    refine (List.perm_ext_iff_of_nodup (ht.filter _) hgone).2 fun key => ?_
    rw [List.mem_filter, decide_eq_true_eq]
    exact and_iff_right_of_imp fun hkey => (has_iff_mem_keys t key).1 (hhas key hkey)
  have htaken : gone.length = (t.filter fun e => e.1 ∈ gone).length := by
    rw [← hperm.length_eq, keys, List.filter_map, List.length_map]
    rfl
  have hall := List.length_eq_length_filter_add (l := t) fun e => decide (e.1 ∈ gone)
  simp only [← decide_not] at hall
  omega

theorem has_filter_of_mem {key : String} (h : key ∈ gone) :
    has (t.filter fun e => e.1 ∉ gone) key = false := by
  rw [has, get?_eq_none fun hkey => ?_, Option.isSome_none]
  obtain ⟨e, he, rfl⟩ := List.mem_map.1 hkey
  simp [h] at he

end Table

namespace Memory

variable {m m' : Memory} {c : Option String} {ids gone : List String}

/-- The store without those records of one collection whose ids are among the given ones. -/
structure Lacks (m : Memory) (c : Option String) (gone : List String) (m' : Memory) : Prop where
  standard : m'.standard = m.standard
  target : m'.records c = (m.records c).filter fun e => e.2.id ∉ gone
  others : ∀ name, name ≠ m.resolve c → m'.collection name = m.collection name

theorem records_setRecords (m : Memory) (c : Option String) (t : Table Record) :
    (m.setRecords c t).records c = t := by
  have hname : (m.setRecords c t).resolve c = m.resolve c := rfl
  rw [records_eq, collection_setRecords, hname, if_pos rfl]

theorem Keyed.filter_ids {t : Table Record} (h : Keyed t) (gone : List String) :
    (t.filter fun e => e.2.id ∉ gone) = t.filter fun e => e.1 ∉ gone :=
  List.filter_congr fun e he => by rw [h.2 e he]

theorem Kept.lacks (h : m.Kept) (c : Option String) (gone : List String) :
    m.Lacks c gone (m.setRecords c ((m.records c).filter fun e => e.1 ∉ gone)) where
  standard := rfl
  target := (records_setRecords m c _).trans (Keyed.filter_ids (h (m.resolve c)) gone).symm
  others name hname := by rw [collection_setRecords, if_neg (Ne.symm hname)]

theorem Kept.lacks_of_present (h : m.Kept) (hm' : m.Lacks c (m.present c ids) m') :
    m.Lacks c ids m' where
  standard := hm'.standard
  target := by
    have hkeyed : Keyed (m.records c) := h (m.resolve c)
    rw [hm'.target, hkeyed.filter_ids, hkeyed.filter_ids, filter_not_mem_present]
  others := hm'.others

theorem Kept.length_of_lacks (h : m.Kept) (hm' : m.Lacks c gone m') (hgone : gone.Nodup)
    (hhas : ∀ id ∈ gone, (m.records c).has id = true) :
    (m'.records c).length + gone.length = (m.records c).length := by
  have hkeyed : Keyed (m.records c) := h (m.resolve c)
  rw [hm'.target, hkeyed.filter_ids]
  exact Table.length_filter_not_mem hkeyed.1 hgone hhas

/-- A removal keeps every record under its own id, whether or not it fails. -/
theorem Kept.remove (h : m.Kept) (ids : List String) (c : Option String)
    (filter : Option Filter) : (m.remove ids c filter).2.Kept := by
  unfold Memory.remove
  split
  · exact h
  · exact h.setRecords ((h (m.resolve c)).sublist (removeAll_sublist _ _)) c

/-- An id that is named again ends the removal there. -/
theorem Kept.remove_of_repeat (h : m.Kept) (hids : ids ≠ []) {before after : List String}
    {id : String} (hsplit : m.present c ids = before ++ id :: after) (hbefore : before.Nodup)
    (hid : id ∈ before) (filter : Option Filter) :
    ∃ m', m.remove ids c filter = (.error (.missingKey id), m') ∧ m.Lacks c before m' := by
  have hkeys : (m.records c).keys.Nodup := (h (m.resolve c)).1
  have hhas : ∀ i ∈ before, (m.records c).has i = true := fun i hi =>
    has_of_mem_present (hsplit ▸ List.mem_append_left _ hi)
  have hmissing : Table.has ((m.records c).filter fun e => e.1 ∉ before) id = false :=
    Table.has_filter_of_mem hid
  refine ⟨_, ?_, h.lacks c before⟩
  rw [remove_eq_removeAll hids, hsplit, removeAll_append hkeys hbefore hhas, removeAll,
    if_neg (by rw [hmissing]; exact Bool.false_ne_true)]
  rfl

/-- A deletion by ids succeeds if no id that is there is named twice. It then takes away the records
with these ids, no others, and tells how many they were. Otherwise it fails at the first id that is
named again, and just the records with the ids before it are gone. -/
theorem deletes_by_ids (h : m.Kept) (hids : ids ≠ []) (c : Option String)
    (filter : Option Filter) :
    ((m.present c ids).Nodup → ∃ n m', m.remove ids c filter = (.ok n, m') ∧ m.Lacks c ids m' ∧
      (m'.records c).length + n = (m.records c).length) ∧
    (¬ (m.present c ids).Nodup → ∃ before id after m',
      m.present c ids = before ++ id :: after ∧ before.Nodup ∧ id ∈ before ∧
      m.remove ids c filter = (.error (.missingKey id), m') ∧ m.Lacks c before m') := by
  constructor
  · intro hnodup
    have hlacks := h.lacks c (m.present c ids)
    exact ⟨_, _, remove_eq_of_nodup_present h hids c hnodup filter, h.lacks_of_present hlacks,
      h.length_of_lacks hlacks hnodup fun _ => has_of_mem_present⟩
  · intro htwice
    obtain ⟨before, id, after, hsplit, hbefore, hid⟩ := exists_first_repeat htwice
    obtain ⟨m', hremove, hlacks⟩ := h.remove_of_repeat hids hsplit hbefore hid filter
    exact ⟨before, id, after, m', hsplit, hbefore, hid, hremove, hlacks⟩

theorem deletes_ids_with_one_unknown :
    let record (id : String) : Record := ⟨id, [1], id, none, none, none, none, none, none⟩
    let m := (empty "default").store [record "a", record "b"] none
    let ids := ["missing", "b"]
    m.Kept ∧ (m.present none ids).Nodup ∧
      ∃ n m', m.remove ids none none = (.ok n, m') ∧ m.Lacks none ids m' ∧
        (m'.records none).length + n = 2 := by
  intro record m ids
  have hkept : m.Kept := (kept_empty "default").store _ none
  have hnodup : (m.present none ids).Nodup := by decide
  exact ⟨hkept, hnodup, (deletes_by_ids hkept (by simp [ids]) none none).1 hnodup⟩

/-- An id that is named twice stops the deletion after the record is gone. -/
theorem id_named_twice_stops_deletion :
    let record (id : String) : Record := ⟨id, [1], id, none, none, none, none, none, none⟩
    let m := (empty "default").store [record "a", record "b"] none
    let deleted := m.remove ["a", "a", "b"] none none
    deleted.1 = .error (.missingKey "a") ∧ (deleted.2.records none).keys = ["b"] :=
  ⟨rfl, rfl⟩

end Memory

end Retrieval
