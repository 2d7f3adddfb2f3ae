import Retrieval.Proofs.Store.Memory
import Retrieval.Proofs.Table.Keyed

/-!
# Records under their own ids

A store in memory that is only ever written to and removed from holds every record under its own id,
and no id twice in a collection. Then a removal by distinct ids never fails and takes away just the
records with these ids.
-/

namespace Retrieval.Memory

variable {m : Memory} {t : Table Record}

/-- A collection as writing keeps it. -/
def Keyed (t : Table Record) : Prop := t.keys.Nodup ∧ ∀ e ∈ t, e.2.id = e.1

def Kept (m : Memory) : Prop := ∀ name, Keyed (m.collection name)

theorem kept_empty (standard : String) : (empty standard).Kept := by
  intro name
  rw [collection_empty]
  exact ⟨List.nodup_nil, fun _ he => nomatch he⟩

theorem Keyed.sublist {u : Table Record} (h : Keyed t) (hs : u.Sublist t) : Keyed u :=
  ⟨Table.nodup_keys_of_sublist hs h.1, fun e he => h.2 e (hs.subset he)⟩

theorem Keyed.ids (h : Keyed t) : t.values.map (·.id) = t.keys := by
  rw [Table.values, Table.keys, List.map_map]
  exact List.map_congr_left h.2

theorem Kept.setRecords (h : m.Kept) {records : Table Record} (hr : Keyed records)
    (c : Option String) : (m.setRecords c records).Kept := by
  intro name
  rw [collection_setRecords]
  split
  · exact hr
  · exact h name

theorem Kept.store (h : m.Kept) (records : List Record) (c : Option String) :
    (m.store records c).Kept := by
  refine h.setRecords ⟨Table.nodup_keys_update (h (m.resolve c)).1 _, fun e he => ?_⟩ c
  rcases Table.mem_of_mem_update he with he | he
  · exact (h (m.resolve c)).2 e he
  · obtain ⟨r, _, rfl⟩ := List.mem_map.1 he
    rfl

theorem removeAll_append {ids : List String} (ht : t.keys.Nodup) (hids : ids.Nodup)
    (hhas : ∀ id ∈ ids, t.has id = true) (later : List String) :
    removeAll t (ids ++ later) = removeAll (t.filter fun e => e.1 ∉ ids) later := by
  induction ids generalizing t with
  | nil =>
      rw [List.nil_append, List.filter_eq_self.2 fun e _ => by simp]
  | cons id rest ih =>
      obtain ⟨hid, hrest⟩ := List.nodup_cons.1 hids
      have hne {i : String} (hi : i ∈ rest) : id ≠ i := fun he => hid (he ▸ hi)
      have herase := Table.nodup_keys_of_sublist (Table.erase_sublist t id) ht
      rw [List.cons_append, removeAll, if_pos (hhas id List.mem_cons_self),
        ih herase hrest fun i hi => ?_]
      · rw [Table.erase_eq_filter ht, List.filter_filter]
        refine congrArg (removeAll · later) (List.filter_congr fun e _ => ?_)
        rw [Bool.and_comm]
        simp
      · rw [Table.has, Table.get?_erase_of_ne (hne hi)]
        exact hhas i (List.mem_cons_of_mem id hi)

theorem removeAll_eq_filter {ids : List String} (ht : t.keys.Nodup) (hids : ids.Nodup)
    (hhas : ∀ id ∈ ids, t.has id = true) :
    removeAll t ids = (.ok (), t.filter fun e => e.1 ∉ ids) := by
  have happend := removeAll_append ht hids hhas []
  rwa [List.append_nil] at happend

theorem remove_eq_of_nodup_present {ids : List String} (h : m.Kept) (hne : ids ≠ [])
    (c : Option String) (hids : (m.present c ids).Nodup) (filter : Option Filter) :
    m.remove ids c filter = (.ok (m.present c ids).length,
      m.setRecords c ((m.records c).filter fun e => e.1 ∉ m.present c ids)) := by
  have hkeys : (m.records c).keys.Nodup := (h (m.resolve c)).1
  rw [remove_eq_removeAll hne, removeAll_eq_filter hkeys hids fun _ => has_of_mem_present]
  rfl

theorem filter_not_mem_present (m : Memory) (c : Option String) (ids : List String) :
    (m.records c).filter (fun e => e.1 ∉ m.present c ids) =
      (m.records c).filter fun e => e.1 ∉ ids := by
  refine List.filter_congr fun e he => decide_eq_decide.2 (not_congr ?_)
  exact mem_present_of_has ((Table.has_iff_mem_keys _ _).2 (List.mem_map_of_mem he))

theorem remove_eq {ids : List String} (h : m.Kept) (hids : ids.Nodup) (hne : ids ≠ [])
    (c : Option String) (filter : Option Filter) :
    m.remove ids c filter = (.ok (ids.filter (m.records c).has).length,
      m.setRecords c ((m.records c).filter fun e => e.1 ∉ ids)) := by
  rw [remove_eq_of_nodup_present h hne c (hids.filter _), filter_not_mem_present]
  rfl

theorem values_filter (h : Keyed t) (ids : List String) :
    Table.values (t.filter fun e => e.1 ∉ ids) = t.values.filter fun r => r.id ∉ ids := by
  rw [Table.values, Table.values, List.filter_map]
  refine congrArg (List.map _) (List.filter_congr fun e he => ?_)
  rw [Function.comp_apply, h.2 e he]

end Retrieval.Memory
