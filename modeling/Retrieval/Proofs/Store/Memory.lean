import Retrieval.Proofs.Filter.Legible
import Retrieval.Proofs.Table.Part
import Retrieval.Store.Memory

/-!
# What the store in memory holds and answers

A collection is read by name. Writing and removing change the one collection they name; a query sees
of that collection only what its filter does not turn away without a fault.
-/

namespace Retrieval

namespace Memory

variable {m : Memory} {p : Record → Bool} {t : Table Record}

def collection (m : Memory) (name : String) : Table Record := (m.collections.get? name).getD []

theorem records_eq (m : Memory) (c : Option String) :
    m.records c = m.collection (m.resolve c) := rfl

@[simp] theorem collection_empty (standard name : String) :
    (empty standard).collection name = [] := rfl

theorem collection_setRecords (m : Memory) (c : Option String) (records : Table Record)
    (name : String) :
    (m.setRecords c records).collection name =
      if m.resolve c = name then records else m.collection name := by
  simp only [collection, setRecords, Table.get?_set]
  split <;> rfl

theorem collection_store (m : Memory) (records : List Record) (c : Option String)
    (name : String) :
    (m.store records c).collection name =
      if m.resolve c = name then (m.collection name).update (records.map fun r => (r.id, r))
      else m.collection name := by
  rw [store, collection_setRecords, records_eq]
  split
  · next h => rw [h]
  · rfl

theorem removeAll_sublist (t : Table Record) (ids : List String) :
    (removeAll t ids).2.Sublist t := by
  induction ids generalizing t with
  | nil => exact List.Sublist.refl t
  | cons id later ih =>
      rw [removeAll]
      split
      · exact (ih _).trans (Table.erase_sublist t id)
      · exact List.Sublist.refl t

/-- Records that all pass a test are removed from the part that passes it as from the whole. -/
theorem only_removeAll {ids : List String} (h : ∀ id ∈ ids, t.Uniform p id true) :
    (removeAll t ids).2.only p = (removeAll (t.only p) ids).2 := by
  induction ids generalizing t with
  | nil => rfl
  | cons id later ih =>
      have hid := h id List.mem_cons_self
      rw [removeAll, removeAll, Table.has_only hid]
      split
      · rw [ih fun i hi => (h i (List.mem_cons_of_mem _ hi)).erase, Table.only_erase hid,
          if_pos rfl]
      · rfl

/-- Records none of which passes a test are removed without a trace in the part that passes it. -/
theorem only_removeAll_of_dropped {ids : List String}
    (h : ∀ id ∈ ids, t.Uniform p id false) : (removeAll t ids).2.only p = t.only p := by
  induction ids generalizing t with
  | nil => rfl
  | cons id later ih =>
      rw [removeAll]
      split
      · rw [ih fun i hi => (h i (List.mem_cons_of_mem _ hi)).erase,
          Table.only_erase (h id List.mem_cons_self), if_neg Bool.false_ne_true]
      · rfl

def present (m : Memory) (c : Option String) (ids : List String) : List String :=
  ids.filter (m.records c).has

theorem has_of_mem_present {c : Option String} {ids : List String} {id : String}
    (h : id ∈ m.present c ids) : (m.records c).has id = true :=
  (List.mem_filter.1 h).2

theorem mem_present_of_has {c : Option String} {ids : List String} {id : String}
    (h : (m.records c).has id = true) : id ∈ m.present c ids ↔ id ∈ ids := by
  rw [present, List.mem_filter, and_iff_left h]

theorem remove_eq_removeAll {ids : List String} (h : ids ≠ []) (m : Memory) (c : Option String)
    (filter : Option Filter) : m.remove ids c filter =
      ((removeAll (m.records c) (m.present c ids)).1.map fun _ => (m.present c ids).length,
        m.setRecords c (removeAll (m.records c) (m.present c ids)).2) := by
  have hd : m.doomed ids c filter = .ok (m.present c ids) := by
    unfold doomed
    rw [if_pos (by simpa using h)]
    rfl
  simp only [remove, hd]

theorem snd_remove {ids : List String} (h : ids ≠ []) (m : Memory) (c : Option String)
    (filter : Option Filter) :
    (m.remove ids c filter).2 =
      m.setRecords c (removeAll (m.records c) (ids.filter (m.records c).has)).2 :=
  congrArg Prod.snd (remove_eq_removeAll h m c filter)

theorem candidates_cases {f : Filter} (hf : f.isWellFormed = true) (records : List Record) :
    candidates (some f) records = .ok (records.filter fun r => f.passes r.fields) ∨
      (candidates (some f) records = .error Value.tooLong ∧
        ∃ r ∈ records, f.evaluate r.fields = .error Value.tooLong) := by
  induction records with
  | nil => exact .inl rfl
  | cons r rest ih =>
      simp only [candidates, selects, List.filter_cons]
      rcases Filter.evaluate_cases hf r.fields with heval | ⟨heval, -⟩
      · rw [heval, Filter.passes_of_evaluate heval]
        rcases ih with ih | ⟨ih, q, hq, hfault⟩
        · rw [ih]
          exact .inl (by cases f.accepts r.fields <;> rfl)
        · rw [ih]
          exact .inr ⟨rfl, q, List.mem_cons_of_mem _ hq, hfault⟩
      · refine .inr ⟨?_, r, List.mem_cons_self, heval⟩
        rw [heval]
        rfl

theorem candidates_of_isLegible {f : Filter} (hf : f.isWellFormed = true) {records : List Record}
    (h : ∀ r ∈ records, f.isLegible r.fields = true) :
    candidates (some f) records = .ok (records.filter fun r => f.accepts r.fields) := by
  rcases candidates_cases hf records with hok | ⟨-, r, hr, hfault⟩
  · rw [hok]
    exact congrArg Except.ok (List.filter_congr fun r hr => Filter.passes_of_isLegible hf (h r hr))
  · cases hfault.symm.trans (Filter.evaluate_eq_accepts hf (h r hr))

theorem search_listing_eq (m : Memory) (f : Filter) (tenant : String) (c : Option String) :
    m.search (.listing f tenant c) =
      (candidates (some f) (m.records c).values).map fun records =>
        (records.take 10000).map fun r => ⟨r, 1⟩ := by
  simp only [search, Query.listing, rank, List.map_take]
  rfl

theorem search_listing {f : Filter} (hf : f.isWellFormed = true)
    (hlegible : ∀ fields, f.isLegible fields = true) (m : Memory) (tenant : String)
    (c : Option String) :
    m.search (.listing f tenant c) =
      .ok ((((m.records c).values.filter fun r => f.accepts r.fields).take 10000).map
        fun r => ⟨r, 1⟩) := by
  rw [search_listing_eq, candidates_of_isLegible hf fun r _ => hlegible r.fields]
  rfl

theorem eq_of_search_listing {f : Filter} (hf : f.isWellFormed = true) {tenant : String}
    {c : Option String} {found : List Match} (h : m.search (.listing f tenant c) = .ok found) :
    found = (((m.records c).values.filter fun r => f.passes r.fields).take 10000).map
      fun r => ⟨r, 1⟩ := by
  rw [search_listing_eq] at h
  rcases candidates_cases hf (m.records c).values with hok | ⟨hfault, -⟩
  · rw [hok] at h
    exact (Except.ok.inj h).symm
  · rw [hfault] at h
    cases h

/-- A ranking is the records in some order, each with a score of its own. -/
theorem rank_perm (vector : Option Embedding) (records : List Record) :
    ∃ score : Record → Float, (rank vector records).Perm (records.map fun r => ⟨r, score r⟩) := by
  cases vector with
  | none => exact ⟨fun _ => 1, .refl _⟩
  | some v => exact ⟨fun r => cosineSimilarity v r.vector, List.mergeSort_perm _ _⟩

theorem search_eq {q : Query} (hq : ¬ q.topK ≤ 0) (m : Memory) : m.search q =
    (candidates q.filter (m.records q.collection).values).map fun records =>
      (rank q.vector records).take q.topK.toNat :=
  if_neg hq

/-- A search with a filter finds only records that pass it. It fails only where the filter cannot be
told of some record. -/
theorem search_cases {q : Query} {f : Filter} (hq : q.filter = some f)
    (hf : f.isWellFormed = true) (m : Memory) :
    (∃ found, m.search q = .ok found ∧ ∀ x ∈ found,
      x.record ∈ (m.records q.collection).values.filter fun r => f.passes r.fields) ∨
    (m.search q = .error Value.tooLong ∧
      ∃ r ∈ (m.records q.collection).values, f.evaluate r.fields = .error Value.tooLong) := by
  by_cases h : q.topK ≤ 0
  · exact .inl ⟨[], if_pos h, nofun⟩
  · rw [search_eq h, hq]
    rcases candidates_cases hf (m.records q.collection).values with hok | ⟨hfault, hrecord⟩
    · obtain ⟨score, hperm⟩ := rank_perm q.vector
        ((m.records q.collection).values.filter fun r => f.passes r.fields)
      rw [hok]
      refine .inl ⟨_, rfl, fun x hx => ?_⟩
      obtain ⟨r, hr, rfl⟩ := List.mem_map.1 (hperm.subset (List.mem_of_mem_take hx))
      exact hr
    · rw [hfault]
      exact .inr ⟨rfl, hrecord⟩

theorem search_rank_cases {q : Query} {f : Filter} (hq : q.filter = some f)
    (hf : f.isWellFormed = true) (htop : ((m.records q.collection).length : Int) ≤ q.topK) :
    m.search q = .ok (rank q.vector
      ((m.records q.collection).values.filter fun r => f.passes r.fields)) ∨
    (m.search q = .error Value.tooLong ∧
      ∃ r ∈ (m.records q.collection).values, f.evaluate r.fields = .error Value.tooLong) := by
  let passing := (m.records q.collection).values.filter fun r => f.passes r.fields
  obtain ⟨score, hperm⟩ := rank_perm q.vector passing
  have hlength : passing.length ≤ (m.records q.collection).length := by
    have hall : (m.records q.collection).values.length = (m.records q.collection).length :=
      List.length_map _
    exact hall ▸ List.length_filter_le _ _
  have hcount : (rank q.vector passing).length ≤ q.topK.toNat := by
    rw [hperm.length_eq, List.length_map]
    omega
  by_cases h : q.topK ≤ 0
  · have hnone : rank q.vector passing = [] := List.eq_nil_of_length_eq_zero (by omega)
    exact .inl ((if_pos h).trans (congrArg Except.ok hnone.symm))
  · rw [search_eq h, hq]
    rcases candidates_cases hf (m.records q.collection).values with hok | ⟨hfault, hrecord⟩
    · rw [hok]
      exact .inl (congrArg Except.ok (List.take_of_length_le hcount))
    · rw [hfault]
      exact .inr ⟨rfl, hrecord⟩

theorem search_eq_rank {q : Query} {f : Filter} (hq : q.filter = some f)
    (hf : f.isWellFormed = true)
    (hlegible : ∀ r ∈ (m.records q.collection).values, f.isLegible r.fields = true)
    (htop : ((m.records q.collection).length : Int) ≤ q.topK) :
    m.search q = .ok (rank q.vector
      ((m.records q.collection).values.filter fun r => f.accepts r.fields)) := by
  rcases search_rank_cases hq hf htop with hok | ⟨-, r, hr, hfault⟩
  · rw [hok, List.filter_congr fun r hr => Filter.passes_of_isLegible hf (hlegible r hr)]
  · cases hfault.symm.trans (Filter.evaluate_eq_accepts hf (hlegible r hr))

/-- Records that a filter turns away without a fault do not bear on the answer. -/
theorem candidates_only {filter : Option Filter}
    (h : ∀ r, p r = false → selects filter r = .ok false) (t : Table Record) :
    candidates filter (t.only p).values = candidates filter t.values := by
  induction t with
  | nil => rfl
  | cons entry rest ih =>
      obtain ⟨name, r⟩ := entry
      rw [Table.only_cons]
      simp only [Table.values, List.map_cons, candidates] at ih ⊢
      cases hp : p r with
      | true => simp only [if_pos, List.map_cons, candidates, ih]
      | false =>
          rw [if_neg Bool.false_ne_true, ih, h r hp]
          cases candidates filter (rest.map (·.2)) <;> rfl

end Memory

end Retrieval
