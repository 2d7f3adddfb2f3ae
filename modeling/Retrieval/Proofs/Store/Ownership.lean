import Retrieval.Proofs.Index.Indexing

/-!
# Whose records a store holds

When every id belongs to one tenant, what a call does for a tenant it does to the part of the store
that the tenant's searches look at, and it leaves the part of every other tenant as it was.
-/

namespace Retrieval.Memory

variable {W : String → String → Prop} {m m' : Memory} {t : String}

/-- Every record is kept under its own id and names a tenant that the id belongs to. -/
def OwnedBy (W : String → String → Prop) (m : Memory) : Prop :=
  ∀ name id r, (id, r) ∈ m.collection name →
    ∃ u, r.fields.get? Key.tenantId = some (.text u) ∧ W u id ∧ r.id = id

def Exclusive (W : String → String → Prop) : Prop := ∀ u v id, W u id → W v id → u = v

/-- Two stores look the same to the searches of a tenant. -/
structure Agree (t : String) (m m' : Memory) : Prop where
  standard : m.standard = m'.standard
  part : ∀ name, (m.collection name).only (Record.inScope t) =
    (m'.collection name).only (Record.inScope t)

theorem Agree.trans {m'' : Memory} (h : Agree t m m') (h' : Agree t m' m'') : Agree t m m'' :=
  ⟨h.standard.trans h'.standard, fun name => (h.part name).trans (h'.part name)⟩

theorem Agree.resolve (h : Agree t m m') (c : Option String) : m.resolve c = m'.resolve c := by
  simp only [Memory.resolve, h.standard]

theorem OwnedBy.uniform (hm : OwnedBy W m) (hW : Exclusive W) {u id : String} (hu : W u id)
    (t name : String) : (m.collection name).Uniform (Record.inScope t) id (u == t) := by
  intro r hr
  obtain ⟨v, hv, hw, _⟩ := hm name id r hr
  rw [Record.inScope_eq hv, hW v u id hw hu]

/-- What a cleanup finds stale belongs to the tenant it is done for. -/
theorem OwnedBy.owner_of_stale (hm : OwnedBy W m) {o : IndexOptions} {r : Record}
    (hr : r ∈ m.stale o) : W o.tenantId r.id := by
  obtain ⟨hv, ha⟩ := List.mem_filter.1 (List.mem_of_mem_take hr)
  obtain ⟨⟨id, s⟩, hs, rfl⟩ := List.mem_map.1 hv
  obtain ⟨u, hu, hw, hid⟩ := hm _ id s hs
  have hscope := IndexOptions.inScope_of_stale ha
  rw [Record.inScope_eq hu, beq_iff_eq] at hscope
  rw [← hscope, hid]
  exact hw

theorem OwnedBy.stale_uniform (hm : OwnedBy W m) (hW : Exclusive W) (o : IndexOptions)
    (t name : String) :
    ∀ id ∈ (m.stale o).map (·.id),
      (m.collection name).Uniform (Record.inScope t) id (o.tenantId == t) := by
  intro id hid
  obtain ⟨r, hr, rfl⟩ := List.mem_map.1 hid
  exact hm.uniform hW (hm.owner_of_stale hr) t name

theorem OwnedBy.purge (hm : OwnedBy W m) (o : IndexOptions) : OwnedBy W (m.purge o) := by
  intro name id r hr
  rw [collection_purge] at hr
  split at hr
  · exact hm name id r ((removeAll_sublist _ _).subset hr)
  · exact hm name id r hr

theorem agree_purge_of_ne (hm : OwnedBy W m) (hW : Exclusive W) {o : IndexOptions}
    (h : o.tenantId ≠ t) : Agree t (m.purge o) m := by
  refine ⟨standard_purge m o, fun name => ?_⟩
  rw [collection_purge]
  split
  · have hu := hm.stale_uniform hW o t name
    rw [show (o.tenantId == t) = false by simpa using h] at hu
    exact only_removeAll_of_dropped fun id hid => hu id (List.mem_filter.1 hid).1
  · rfl

theorem Agree.stale_eq (h : Agree t m m') {o : IndexOptions} (ho : o.tenantId = t) :
    m.stale o = m'.stale o := by
  have hp (r : Record) (hr : o.staleFilter.accepts r.fields = true) : r.inScope t = true :=
    ho ▸ IndexOptions.inScope_of_stale hr
  rw [stale, stale, ← Table.filter_values_only hp (m.records _),
    ← Table.filter_values_only hp (m'.records _), records_eq, records_eq, h.resolve, h.part]

theorem Agree.purge (h : Agree t m m') (hm : OwnedBy W m) (hm' : OwnedBy W m')
    (hW : Exclusive W) {o : IndexOptions} (ho : o.tenantId = t) :
    Agree t (m.purge o) (m'.purge o) := by
  refine ⟨by rw [standard_purge, standard_purge, h.standard], fun name => ?_⟩
  rw [collection_purge, collection_purge, h.resolve]
  split
  · have hu := hm.stale_uniform hW o t name
    have hu' := hm'.stale_uniform hW o t name
    rw [show (o.tenantId == t) = true by simpa using ho] at hu hu'
    rw [← h.stale_eq ho] at hu' ⊢
    have hhas : (((m.stale o).map (·.id)).filter (m.collection name).has) =
        (((m.stale o).map (·.id)).filter (m'.collection name).has) := by
      refine List.filter_congr fun id hid => ?_
      rw [← Table.has_only (hu id hid), ← Table.has_only (hu' id hid), h.part]
    rw [only_removeAll fun id hid => hu id (List.mem_filter.1 hid).1, hhas,
      only_removeAll fun id hid => hu' id (List.mem_filter.1 hid).1, h.part]
  · exact h.part name

def Belong (W : String → String → Prop) (u : String) (records : List Record) : Prop :=
  ∀ r ∈ records, r.fields.get? Key.tenantId = some (.text u) ∧ W u r.id

variable {u : String} {records : List Record}

theorem OwnedBy.store (hm : OwnedBy W m) (hr : Belong W u records) (c : Option String) :
    OwnedBy W (m.store records c) := by
  intro name id r h
  rw [collection_store] at h
  split at h
  · rcases Table.mem_of_mem_update h with h | h
    · exact hm name id r h
    · obtain ⟨s, hs, he⟩ := List.mem_map.1 h
      obtain ⟨rfl, rfl⟩ := Prod.mk.inj he
      exact ⟨u, (hr s hs).1, (hr s hs).2, rfl⟩
  · exact hm name id r h

theorem Belong.uniform (hr : Belong W u records) (hm : OwnedBy W m) (hW : Exclusive W)
    (t name : String) :
    ∀ e ∈ records.map fun r => (r.id, r), Record.inScope t e.2 = (u == t) ∧
      (m.collection name).Uniform (Record.inScope t) e.1 (u == t) := by
  intro e he
  obtain ⟨r, h, rfl⟩ := List.mem_map.1 he
  exact ⟨Record.inScope_eq (hr r h).1 t, hm.uniform hW (hr r h).2 t name⟩

theorem agree_store_of_ne (hm : OwnedBy W m) (hW : Exclusive W) (hr : Belong W u records)
    (h : u ≠ t) (c : Option String) : Agree t (m.store records c) m := by
  refine ⟨rfl, fun name => ?_⟩
  rw [collection_store]
  split
  · have hu := hr.uniform hm hW t name
    rw [show (u == t) = false by simpa using h] at hu
    exact Table.only_update_of_dropped (fun e he => (hu e he).1) fun e he => (hu e he).2
  · rfl

theorem Agree.store (h : Agree t m m') (hm : OwnedBy W m) (hm' : OwnedBy W m')
    (hW : Exclusive W) (hr : Belong W t records) (c : Option String) :
    Agree t (m.store records c) (m'.store records c) := by
  refine ⟨h.standard, fun name => ?_⟩
  rw [collection_store, collection_store, h.resolve]
  split
  · have hu := hr.uniform hm hW t name
    have hu' := hr.uniform hm' hW t name
    rw [beq_self_eq_true] at hu hu'
    rw [Table.only_update (fun e he => (hu e he).1) fun e he => (hu e he).2,
      Table.only_update (fun e he => (hu' e he).1) fun e he => (hu' e he).2, h.part]
  · exact h.part name

/-- A search whose filter turns away every record out of the tenant's scope. -/
theorem Agree.search_eq (h : Agree t m m') {q : Query}
    (hq : ∀ r : Record, r.inScope t = false → selects q.filter r = .ok false) :
    m.search q = m'.search q := by
  rw [search, search, ← candidates_only hq (m.records _), ← candidates_only hq (m'.records _),
    records_eq, records_eq, h.resolve, h.part]

end Retrieval.Memory
