import Mathlib.Algebra.Order.Ring.Int
import Mathlib.Data.List.Induction
import Retrieval.Proofs.Table.Keyed
import Retrieval.Version.History

/-!
# Records by version

Every record that has a version stands in the group of that version, in the order of the records,
and the groups stand in the order of their first records. A group makes one version of the document.
-/

namespace Retrieval

open Time

namespace Version

variable {records earlier : List Record} {version : String}

def members (version : String) (records : List Record) : List Record :=
  records.filter fun r => ofRecord? r == some version

def firstOf (version : String) (records : List Record) : Nat :=
  records.findIdx fun r => ofRecord? r == some version

theorem groups_concat (earlier : List Record) (r : Record) :
    groups (earlier ++ [r]) = match ofRecord? r with
      | some version => (groups earlier).set version
          (((groups earlier).get? version).getD [] ++ [r])
      | none => groups earlier := by
  rw [groups, List.foldl_append]
  rfl

theorem mem_keys_groups :
    version ∈ (groups records).keys ↔ ∃ r ∈ records, ofRecord? r = some version := by
  induction records using List.reverseRecOn with
  | nil => simp [groups, Table.keys]
  | append_singleton earlier r ih =>
      rw [groups_concat]
      cases hr : ofRecord? r with
      | none => simp [ih, or_and_right, exists_or, hr]
      | some own => simp [Table.mem_keys_set, ih, or_and_right, exists_or, hr, eq_comm]

theorem nodup_keys_groups (records : List Record) : (groups records).keys.Nodup := by
  induction records using List.reverseRecOn with
  | nil => exact List.nodup_nil
  | append_singleton earlier r ih =>
      rw [groups_concat]
      cases ofRecord? r with
      | none => exact ih
      | some own => exact Table.nodup_keys_set ih own _

theorem get?_groups (records : List Record) (version : String) :
    ((groups records).get? version).getD [] = members version records := by
  induction records using List.reverseRecOn with
  | nil => rfl
  | append_singleton earlier r ih =>
      have hmembers : members version (earlier ++ [r]) =
          members version earlier ++ [r].filter fun r => ofRecord? r == some version :=
        List.filter_append _ _
      rw [groups_concat, hmembers]
      cases hr : ofRecord? r with
      | none => simp [ih, hr]
      | some own =>
          by_cases hv : own = version
          · subst hv
            simp [ih, hr]
          · simp [Table.get?_set_of_ne hv, ih, hr, hv]

theorem eq_members_of_mem_groups {e : String × List Record} (h : e ∈ groups records) :
    e.2 = members e.1 records ∧ e.2 ≠ [] := by
  have heq : e.2 = members e.1 records := by
    rw [← get?_groups, Table.get?_of_mem (nodup_keys_groups records) h]
    rfl
  obtain ⟨r, hr, hversion⟩ := mem_keys_groups.1 (List.mem_map_of_mem h)
  have hmem : r ∈ members e.1 records := List.mem_filter.2 ⟨hr, by simp [hversion]⟩
  exact ⟨heq, heq ▸ List.ne_nil_of_mem hmem⟩

theorem sum_length_groups (records : List Record) :
    ((groups records).values.map List.length).sum =
      records.countP fun r => (ofRecord? r).isSome := by
  induction records using List.reverseRecOn with
  | nil => rfl
  | append_singleton earlier r ih =>
      rw [groups_concat, List.countP_append]
      cases hr : ofRecord? r with
      | none => simp [ih, hr]
      | some own =>
          have hsum := Table.sum_set (groups earlier) own
            (((groups earlier).get? own).getD [] ++ [r]) List.length
          have hgroup : (((groups earlier).get? own).map List.length).getD 0 =
              (((groups earlier).get? own).getD []).length := by
            cases (groups earlier).get? own <;> rfl
          rw [hgroup, ih, List.length_append, List.length_singleton] at hsum
          simp only [hr, List.countP_singleton, Option.isSome_some, if_true]
          omega

theorem firstOf_lt (h : version ∈ (groups records).keys) :
    firstOf version records < records.length := by
  obtain ⟨r, hr, hversion⟩ := mem_keys_groups.1 h
  exact List.findIdx_lt_length_of_exists ⟨r, hr, by simp [hversion]⟩

theorem firstOf_concat (h : version ∈ (groups earlier).keys) (r : Record) :
    firstOf version (earlier ++ [r]) = firstOf version earlier := by
  have hlt := firstOf_lt h
  rw [firstOf] at hlt
  rw [firstOf, List.findIdx_append, if_pos hlt, firstOf]

theorem firstOf_concat_of_new (h : version ∉ (groups earlier).keys) (r : Record) :
    earlier.length ≤ firstOf version (earlier ++ [r]) := by
  have hnone : earlier.findIdx (fun r => ofRecord? r == some version) = earlier.length := by
    refine List.findIdx_eq_length.2 fun s hs => ?_
    rw [beq_eq_false_iff_ne]
    exact fun hversion => h (mem_keys_groups.2 ⟨s, hs, hversion⟩)
  rw [firstOf, List.findIdx_append, hnone, if_neg (Nat.lt_irrefl _)]
  exact Nat.le_add_left _ _

/-- The groups stand in the order in which their versions first occur. -/
theorem pairwise_keys_groups (records : List Record) :
    (groups records).keys.Pairwise fun a b => firstOf a records < firstOf b records := by
  induction records using List.reverseRecOn with
  | nil => exact List.Pairwise.nil
  | append_singleton earlier r ih =>
      have hkept : (groups earlier).keys.Pairwise fun a b =>
          firstOf a (earlier ++ [r]) < firstOf b (earlier ++ [r]) := by
        refine ih.imp_of_mem fun ha hb hab => ?_
        rwa [firstOf_concat ha, firstOf_concat hb]
      rw [groups_concat]
      cases ofRecord? r with
      | none => exact hkept
      | some own =>
          by_cases hown : own ∈ (groups earlier).keys
          · exact (Table.keys_set_of_mem hown _).symm ▸ hkept
          · show (Table.keys (Table.set _ own _)).Pairwise _
            rw [Table.set_of_new hown, Table.keys, List.map_append]
            refine List.pairwise_append.2 ⟨hkept, List.pairwise_singleton _ _, ?_⟩
            intro a ha b hb
            rw [List.mem_singleton.1 hb, firstOf_concat ha]
            exact Nat.lt_of_lt_of_le (firstOf_lt ha) (firstOf_concat_of_new hown r)

def ofGroup? (tenant doc : String) (now : Moment) (id : String) : List Record → Option Version
  | [] => none
  | first :: others => some (ofGroup tenant doc id now first others)

def made (tenant doc : String) (now : Moment) (t : Table (List Record)) : List Version :=
  t.filterMap fun e => ofGroup? tenant doc now e.1 e.2

theorem ofRecords_eq (tenant doc : String) (now : Moment) (records : List Record) :
    ofRecords tenant doc now records = (made tenant doc now (groups records)).mergeSort
      fun a b => a.createdAt.compare b.createdAt != .lt := by
  unfold ofRecords made
  congr 2
  funext e
  obtain ⟨id, group⟩ := e
  cases group <;> rfl

theorem ofRecords_perm (tenant doc : String) (now : Moment) (records : List Record) :
    (ofRecords tenant doc now records).Perm (made tenant doc now (groups records)) :=
  ofRecords_eq tenant doc now records ▸ List.mergeSort_perm _ _

theorem compareInts_ne_lt (a b : Int) : (compareInts a b != .lt) = decide (b ≤ a) := by
  unfold compareInts
  split
  · next hlt => simp [hlt]
  · next hlt => split <;> simp [Int.not_lt.1 hlt]

/-- Where the comparison of versions follows a number, they are sorted by it. -/
theorem ofRecords_eq_of_follows {tenant doc : String} {now : Moment} {records : List Record}
    {age : Version → Int} (h : ∀ a ∈ made tenant doc now (groups records),
      ∀ b ∈ made tenant doc now (groups records),
        a.createdAt.compare b.createdAt = compareInts (age a) (age b)) :
    ofRecords tenant doc now records = (made tenant doc now (groups records)).mergeSort
      fun a b => age b ≤ age a := by
  have hsame := List.map_mergeSort (f := fun v : Version => v) (r := fun a b : Version =>
    a.createdAt.compare b.createdAt != .lt) (s := fun a b => decide (age b ≤ age a))
    (l := made tenant doc now (groups records)) fun a ha b hb => by
      rw [h a ha b hb, compareInts_ne_lt]
  rw [List.map_id', List.map_id'] at hsame
  rw [ofRecords_eq, hsame]

section Made

variable {tenant doc : String} {now : Moment} {t : Table (List Record)}

theorem made_cons {name : String} {group : List Record} (h : group ≠ []) :
    ∃ v, v.id = name ∧ v.chunkCount = group.length ∧
      ofGroup? tenant doc now name group = some v ∧
      made tenant doc now ((name, group) :: t) = v :: made tenant doc now t := by
  cases group with
  | nil => exact absurd rfl h
  | cons first others => exact ⟨ofGroup tenant doc name now first others, rfl, rfl, rfl, rfl⟩

theorem map_id_made (h : ∀ e ∈ t, e.2 ≠ []) : (made tenant doc now t).map (·.id) = t.keys := by
  induction t with
  | nil => rfl
  | cons e rest ih =>
      obtain ⟨hfirst, hrest⟩ := List.forall_mem_cons.1 h
      obtain ⟨v, hid, -, -, hmade⟩ := made_cons hfirst
      rw [hmade, List.map_cons, ih hrest, hid]
      rfl

theorem map_id_made_groups (tenant doc : String) (now : Moment) (records : List Record) :
    (made tenant doc now (groups records)).map (·.id) = (groups records).keys :=
  map_id_made fun _ he => (eq_members_of_mem_groups he).2

theorem sum_chunkCount_made (h : ∀ e ∈ t, e.2 ≠ []) :
    ((made tenant doc now t).map (·.chunkCount)).sum = (t.values.map List.length).sum := by
  induction t with
  | nil => rfl
  | cons e rest ih =>
      obtain ⟨hfirst, hrest⟩ := List.forall_mem_cons.1 h
      obtain ⟨v, -, hcount, -, hmade⟩ := made_cons hfirst
      rw [hmade, List.map_cons, List.sum_cons, ih hrest, hcount]
      rfl

theorem find?_made (h : ∀ e ∈ t, e.2 ≠ []) (version : String) :
    (made tenant doc now t).find? (·.id == version) =
      ofGroup? tenant doc now version ((t.get? version).getD []) := by
  induction t with
  | nil => rfl
  | cons e rest ih =>
      obtain ⟨name, group⟩ := e
      obtain ⟨hfirst, hrest⟩ := List.forall_mem_cons.1 h
      obtain ⟨v, hid, -, hgroup, hmade⟩ := made_cons hfirst
      rw [hmade, Table.get?_cons]
      by_cases hv : name = version
      · subst hv
        rw [List.find?_cons_of_pos (by simp [hid]), if_pos rfl, ← hgroup]
        rfl
      · rw [List.find?_cons_of_neg (by simp [hid, hv]), if_neg hv]
        exact ih hrest

end Made

end Version

end Retrieval
