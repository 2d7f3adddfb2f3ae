import Retrieval.Proofs.Index.Identity

/-!
# Stores filled by indexing

Records come into a store by indexing only, and may be taken out again in any way. Then what a
record says of its tenant, its document and its version in its metadata is what it is kept under.
-/

namespace Retrieval

theorem given_given (text : Option String) : given (given text) = given text := by
  simp only [given, Option.filter_filter, Bool.and_self]

theorem given_eq_none_iff {text : Option String} :
    given text = none ↔ text = none ∨ text = some "" := by
  cases text with
  | none => exact iff_of_true rfl (Or.inl rfl)
  | some s => simp [given]

theorem Fields.display?_of_text {fields : Fields} {key text : String}
    (h : fields.get? key = some (.text text)) : fields.display? key = some text := by
  rw [display?, h]
  rfl

namespace Record

def IsIndexed (r : Record) : Prop := ∃ o createdAt c v, r = ofChunk o createdAt c v

def isOf (tenant doc : String) (r : Record) : Bool :=
  r.docId.getD "" == doc && r.tenantId == some tenant

variable {r : Record}

theorem IsIndexed.exists_held (h : r.IsIndexed) {key : String} (hkey : isIdentity key) :
    ∃ held : Option String, r.fields.get? key = held.map .text := by
  obtain ⟨o, createdAt, c, v, rfl⟩ := h
  rcases hkey with rfl | rfl | rfl | rfl
  · exact ⟨some o.docName, get?_docId_ofChunk o createdAt c v⟩
  · exact ⟨some c.id, get?_chunkId_ofChunk o createdAt c v⟩
  · exact ⟨some o.tenantId, get?_tenantId_ofChunk o createdAt c v⟩
  · exact ⟨given o.versionId, get?_versionId_ofChunk o createdAt c v⟩

theorem IsIndexed.bears_identity (h : r.IsIndexed) (tenant doc : String) :
    (r.bears Key.docId doc && r.bears Key.tenantId tenant) = r.isOf tenant doc := by
  obtain ⟨o, createdAt, c, v, rfl⟩ := h
  rw [bears_of_text (get?_docId_ofChunk o createdAt c v),
    bears_of_text (get?_tenantId_ofChunk o createdAt c v), isOf]
  rfl

theorem IsIndexed.bears_versionId (h : r.IsIndexed) (version : String) :
    r.bears Key.versionId version = (given r.versionId == some version) := by
  obtain ⟨o, createdAt, c, v, rfl⟩ := h
  rw [bears, get?_versionId_ofChunk]
  show _ = (given o.versionId == some version)
  cases given o.versionId with
  | none => rfl
  | some held => simp

end Record

namespace Memory

variable {m : Memory} {p : Record → Prop}

def Every (p : Record → Prop) (m : Memory) : Prop := ∀ name, ∀ e ∈ m.collection name, p e.2

theorem Every.setRecords (h : m.Every p) {records : Table Record} (hr : ∀ e ∈ records, p e.2)
    (c : Option String) : (m.setRecords c records).Every p := by
  intro name
  rw [collection_setRecords]
  split
  · exact hr
  · exact h name

theorem Every.store (h : m.Every p) {records : List Record} (hr : ∀ r ∈ records, p r)
    (c : Option String) : (m.store records c).Every p := by
  refine h.setRecords (fun e he => ?_) c
  rcases Table.mem_of_mem_update he with he | he
  · exact h _ e he
  · obtain ⟨r, hmem, rfl⟩ := List.mem_map.1 he
    exact hr r hmem

theorem Every.removeAll (h : m.Every p) (c : Option String) (ids : List String) :
    (m.setRecords c (removeAll (m.records c) ids).2).Every p :=
  h.setRecords (fun e he => h _ e ((removeAll_sublist _ ids).subset he)) c

theorem Every.purge (h : m.Every p) (o : IndexOptions) : (m.purge o).Every p := by
  unfold Memory.purge
  split
  · exact h
  · exact h.removeAll o.collection _

theorem Every.remove (h : m.Every p) (ids : List String) (c : Option String)
    (filter : Option Filter) : (m.remove ids c filter).2.Every p := by
  unfold Memory.remove
  split
  · exact h
  · exact h.removeAll c _

/-- Records come into the store by calls of indexers only, and go in any way. -/
inductive Filled : Memory → Prop
  | empty (standard : String) : Filled (.empty standard)
  | index {ω : Type} {x : Indexer ω} {memory : ω → Memory} {put : Memory → ω → ω}
      (hfills : x.Fills memory put) (chunks : List Chunk) (o : IndexOptions) {w : ω}
      (h : Filled (memory w)) : Filled (memory (x.index chunks o w).2)
  | remove {m : Memory} (ids : List String) (c : Option String) (filter : Option Filter)
      (h : Filled m) : Filled (m.remove ids c filter).2

theorem Filled.every (h : m.Filled) : m.Every Record.IsIndexed := by
  induction h with
  | empty standard => exact fun _ _ he => nomatch he
  | index hfills chunks o _ ih =>
      rcases hfills.index_cases chunks o _ with
        ⟨-, -, hsame⟩ | ⟨-, -, createdAt, vectors, -, -, hmemory⟩
      · rw [hsame]
        exact ih
      · rw [hmemory]
        have hnew : ∀ r ∈ Record.ofChunks o createdAt chunks vectors, r.IsIndexed := by
          intro r hr
          obtain ⟨c, v, -, rfl⟩ := Record.exists_of_mem_ofChunks hr
          exact ⟨o, createdAt, c, v, rfl⟩
        split
        · exact (ih.purge o).store hnew _
        · exact ih.store hnew _
  | remove ids c filter _ ih => exact ih.remove ids c filter

theorem Filled.isIndexed (h : m.Filled) {c : Option String} {r : Record}
    (hr : r ∈ (m.records c).values) : r.IsIndexed := by
  obtain ⟨e, he, rfl⟩ := List.mem_map.1 hr
  exact h.every _ e he

end Memory

end Retrieval
