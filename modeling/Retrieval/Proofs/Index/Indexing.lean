import Retrieval.Index.Indexer
import Retrieval.Proofs.Effect.Keeping
import Retrieval.Proofs.Store.Memory

/-!
# What indexing does

Everything that can be refused is done before the store is touched: the records are prepared first,
then stale records are removed, then the new ones are written. On the store in memory the removal
takes away the first records, up to the limit of a listing, that name the document and the tenant
but another version.
-/

namespace Retrieval

open Time

def Record.inScope (tenant : String) (r : Record) : Bool := (Filter.ofTenant tenant).accepts r.fields

theorem Record.evaluate_ofTenant (tenant : String) (r : Record) :
    (Filter.ofTenant tenant).evaluate r.fields = .ok (r.inScope tenant) :=
  Filter.evaluate_eq_accepts rfl (Filter.isLegible_equals_text Key.tenantId tenant r.fields)

theorem Record.inScope_eq {r : Record} {u : String}
    (h : r.fields.get? Key.tenantId = some (.text u)) (t : String) : r.inScope t = (u == t) := by
  simp only [inScope, Filter.ofTenant, Filter.equals, Filter.accepts, Predicate.holds, h]
  simp [Predicate.test]

/-- Whatever the metadata of a chunk says, its record belongs to the tenant it is indexed for. -/
theorem Record.get?_tenantId_ofChunk (o : IndexOptions) (createdAt : String) (c : Chunk)
    (v : Embedding) :
    (ofChunk o createdAt c v).fields.get? Key.tenantId = some (.text o.tenantId) := by
  have hne : Key.versionId ≠ Key.tenantId := by decide
  simp only [ofChunk, fields, Option.getD_some, metadataOf, identify]
  cases given o.versionId with
  | none => simp only [Table.get?_erase_of_ne hne, Table.get?_set_self]
  | some version => simp only [Table.get?_set_of_ne hne, Table.get?_set_self]

namespace Record

variable {o : IndexOptions} {createdAt : String} {chunks : List Chunk} {vectors : List Embedding}

theorem exists_of_mem_ofChunks {r : Record} (h : r ∈ ofChunks o createdAt chunks vectors) :
    ∃ c v, c ∈ chunks ∧ r = ofChunk o createdAt c v := by
  rw [ofChunks, ← List.map_uncurry_zip_eq_zipWith] at h
  obtain ⟨⟨c, v⟩, hz, rfl⟩ := List.mem_map.1 h
  exact ⟨c, v, (List.of_mem_zip hz).1, rfl⟩

theorem map_ofChunks {α : Type} {f : Record → α} {g : Chunk → α}
    (hl : vectors.length = chunks.length)
    (h : ∀ c ∈ chunks, ∀ v, f (ofChunk o createdAt c v) = g c) :
    (ofChunks o createdAt chunks vectors).map f = chunks.map g := by
  rw [ofChunks, ← List.map_uncurry_zip_eq_zipWith, List.map_map]
  have hg : (chunks.zip vectors).map (f ∘ Function.uncurry (ofChunk o createdAt)) =
      (chunks.zip vectors).map (g ∘ Prod.fst) :=
    List.map_congr_left fun x hx => h x.1 (List.of_mem_zip hx).1 x.2
  rw [hg, ← List.map_map, List.map_fst_zip (Nat.le_of_eq hl.symm)]

theorem forall_mem_ofChunks {p : Record → Bool} {q : Chunk → Bool}
    (hl : vectors.length = chunks.length)
    (h : ∀ c ∈ chunks, ∀ v, p (ofChunk o createdAt c v) = q c) :
    (∀ r ∈ ofChunks o createdAt chunks vectors, p r = true) ↔ ∀ c ∈ chunks, q c = true := by
  have hmap := map_ofChunks hl h
  rw [← List.forall_mem_map (f := p) (P := (· = true)), hmap, List.forall_mem_map]

theorem build_cases (o : IndexOptions) (createdAt : String) (chunks : List Chunk)
    (vectors : List Embedding) :
    (build o createdAt chunks vectors = .ok (ofChunks o createdAt chunks vectors) ∧
      ∀ r ∈ ofChunks o createdAt chunks vectors, r.fields.isLegible Key.sourceUri = true) ∨
    (build o createdAt chunks vectors = .error Value.tooLong ∧
      ∃ r ∈ ofChunks o createdAt chunks vectors, r.fields.isLegible Key.sourceUri = false) := by
  unfold build
  by_cases h : (ofChunks o createdAt chunks vectors).all (·.fields.isLegible Key.sourceUri) = true
  · exact .inl ⟨if_pos h, List.all_eq_true.1 h⟩
  · refine .inr ⟨if_neg h, ?_⟩
    simpa using h

end Record

namespace IndexOptions

theorem isWellFormed_staleFilter (o : IndexOptions) : o.staleFilter.isWellFormed = true := by
  unfold staleFilter
  cases given o.versionId <;> rfl

theorem isLegible_staleFilter (o : IndexOptions) (fields : Fields) :
    o.staleFilter.isLegible fields = true := by
  unfold staleFilter
  cases given o.versionId <;>
    simp [Filter.isLegible, Filter.areLegible, Filter.isLegible_equals_text]

theorem inScope_of_stale {o : IndexOptions} {r : Record}
    (h : o.staleFilter.accepts r.fields = true) : r.inScope o.tenantId = true := by
  simp only [staleFilter, List.cons_append, List.nil_append, Filter.accepts, Filter.acceptsAll,
    Bool.and_eq_true] at h
  exact h.2.1

end IndexOptions

namespace Indexer

variable {ω : Type}

/-- The records to be written, made without touching the store. -/
def prepare (x : Indexer ω) (chunks : List Chunk) (o : IndexOptions) :
    Action ω (List Record) := do
  let vectors ← x.embed chunks o
  let createdAt ← (← Action.read x.now).stored
  (Record.build o createdAt chunks vectors : Outcome (List Record))

theorem length_embed {x : Indexer ω} {chunks : List Chunk} {o : IndexOptions} {w w' : ω}
    {vectors : List Embedding} (h : x.embed chunks o w = (.ok vectors, w')) :
    vectors.length = chunks.length := by
  obtain ⟨tenant, w₁, _, h⟩ := Action.bind_eq_ok.1 h
  obtain ⟨found, w₂, _, h⟩ := Action.bind_eq_ok.1 h
  split at h
  · next hl =>
      cases h
      exact hl
  · cases h

theorem eq_ofChunks_of_prepare {x : Indexer ω} {chunks : List Chunk} {o : IndexOptions}
    {w w' : ω} {records : List Record} (h : x.prepare chunks o w = (.ok records, w')) :
    ∃ createdAt vectors, vectors.length = chunks.length ∧
      (∀ c ∈ chunks, (Record.metadataOf c o createdAt).isLegible Key.sourceUri = true) ∧
      records = Record.ofChunks o createdAt chunks vectors := by
  obtain ⟨vectors, w₁, hv, h⟩ := Action.bind_eq_ok.1 h
  obtain ⟨now, w₂, _, h⟩ := Action.bind_eq_ok.1 h
  obtain ⟨createdAt, w₃, _, h⟩ := Action.bind_eq_ok.1 h
  have hl := length_embed hv
  rcases Record.build_cases o createdAt chunks vectors with ⟨hbuild, hlegible⟩ | ⟨hbuild, -⟩
  · rw [hbuild] at h
    cases h
    exact ⟨createdAt, vectors, hl, (Record.forall_mem_ofChunks hl fun _ _ _ => rfl).1 hlegible, rfl⟩
  · rw [hbuild] at h
    cases h

theorem length_ofChunks {chunks : List Chunk} {o : IndexOptions} {vectors : List Embedding}
    {createdAt : String} (hl : vectors.length = chunks.length) :
    (Record.ofChunks o createdAt chunks vectors).length = chunks.length := by
  rw [Record.ofChunks, List.length_zipWith, hl, Nat.min_self]

theorem write_eq (x : Indexer ω) (chunks : List Chunk) (o : IndexOptions) :
    x.write chunks o = (do
      let records ← x.prepare chunks o
      if o.replaces then
        let _ ← (x.removeStale o).attempt
      let _ ← x.store.upsert records o.collection
      return records.length) := by
  simp [write, prepare]

theorem index_eq (x : Indexer ω) {chunks : List Chunk} (hc : chunks ≠ []) (o : IndexOptions)
    (w : ω) :
    x.index chunks o w = (report chunks (x.write chunks o w).1, (x.write chunks o w).2) := by
  have he : chunks.isEmpty = false := by simpa using hc
  simp only [index, he]
  rfl

theorem write_refused {x : Indexer ω} {chunks : List Chunk} {o : IndexOptions} {w w' : ω}
    {f : Fault} (hp : x.prepare chunks o w = (.error f, w')) :
    x.write chunks o w = (.error f, w') := by
  rw [write_eq, Action.bind_error hp]

end Indexer

namespace Memory

def stale (m : Memory) (o : IndexOptions) : List Record :=
  ((m.records o.collection).values.filter fun r => o.staleFilter.accepts r.fields).take 10000

def purge (m : Memory) (o : IndexOptions) : Memory :=
  if (m.stale o).isEmpty then m
  else m.setRecords o.collection (removeAll (m.records o.collection)
    (((m.stale o).map (·.id)).filter (m.records o.collection).has)).2

theorem search_stale (m : Memory) (o : IndexOptions) :
    m.search (.listing o.staleFilter o.tenantId o.collection) =
      .ok ((m.stale o).map fun r => ⟨r, 1⟩) :=
  search_listing o.isWellFormed_staleFilter o.isLegible_staleFilter m o.tenantId o.collection

theorem standard_purge (m : Memory) (o : IndexOptions) : (m.purge o).standard = m.standard := by
  unfold purge
  split <;> rfl

theorem collection_purge (m : Memory) (o : IndexOptions) (name : String) :
    (m.purge o).collection name =
      if m.resolve o.collection = name then
        (removeAll (m.collection name)
          (((m.stale o).map (·.id)).filter (m.collection name).has)).2
      else m.collection name := by
  unfold purge
  split
  · next h =>
      rw [List.isEmpty_iff] at h
      simp [h, removeAll]
  · rw [collection_setRecords, records_eq]
    split
    · next h => rw [h]
    · rfl

end Memory

namespace Indexer

variable {ω : Type} {x : Indexer ω} {memory : ω → Memory} {put : Memory → ω → ω}
  {chunks : List Chunk} {o : IndexOptions} {w w' : ω} {records : List Record}

theorem memory_removeStale (hx : x.store = Memory.backend.within memory put)
    (hput : ∀ m w, memory (put m w) = m) (o : IndexOptions) (w : ω) :
    memory (x.removeStale o w).2 = (memory w).purge o := by
  have hq : x.store.query (.listing o.staleFilter o.tenantId o.collection) w =
      (.ok (((memory w).stale o).map fun r => ⟨r, 1⟩), put (memory w) w) := by
    rw [hx, ← Memory.search_stale]
    rfl
  rw [removeStale, Action.bind_ok hq, Memory.purge]
  cases hs : (memory w).stale o with
  | nil => exact hput _ _
  | cons r rest =>
      have hids : ((r :: rest).map fun r => (⟨r, 1⟩ : Match)).map (·.record.id) =
          (r :: rest).map (·.id) := by
        rw [List.map_map]
        rfl
      have hne : (r :: rest).map (·.id) ≠ [] := by simp
      have hd := Memory.snd_remove hne (memory w) o.collection none
      simp only [List.map_cons, List.isEmpty_cons, Bool.not_false, if_true, Bool.false_eq_true,
        if_false] at hids hd ⊢
      have hdeleted (ids : List String) (w₁ : ω) :
          memory (x.store.delete ids o.collection none w₁).2 =
            ((memory w₁).remove ids o.collection none).2 := by
        rw [hx]
        exact hput _ _
      rw [Action.snd_bind_pure, hids, hdeleted, hput, ← hd]

/-- On a store in memory only the preparation can fail. -/
theorem memory_write (hx : x.store = Memory.backend.within memory put)
    (hput : ∀ m w, memory (put m w) = m) (hp : x.prepare chunks o w = (.ok records, w')) :
    (x.write chunks o w).1 = .ok records.length ∧ memory (x.write chunks o w).2 =
      (if o.replaces then (memory w').purge o else memory w').store records o.collection := by
  have hstored (w₁ : ω) : memory (x.store.upsert records o.collection w₁).2 =
      (memory w₁).store records o.collection := by
    rw [hx]
    exact hput _ _
  rw [write_eq, Action.bind_ok hp]
  cases o.replaces with
  | false =>
      simp only [Bool.false_eq_true, if_false]
      rw [← hstored, hx]
      exact ⟨rfl, rfl⟩
  | true =>
      simp only [if_true]
      rw [Action.bind_ok (Action.attempt_apply _ _), ← memory_removeStale hx hput, ← hstored, hx]
      exact ⟨rfl, rfl⟩

theorem write_memory {x : Indexer Memory} (hx : x.store = Memory.backend) {m : Memory}
    (hp : x.prepare chunks o m = (.ok records, m)) :
    x.write chunks o m = (.ok records.length,
      (if o.replaces then m.purge o else m).store records o.collection) := by
  have hwithin : x.store = Memory.backend.within id (fun m _ => m) := hx
  obtain ⟨hcount, hmemory⟩ := memory_write hwithin (fun _ _ => rfl) hp
  exact Prod.ext hcount hmemory

theorem vectorsCreated_nonneg (x : Indexer ω) (chunks : List Chunk) (o : IndexOptions) (w : ω) :
    0 ≤ (x.index chunks o w).1.vectorsCreated := by
  by_cases hc : chunks = []
  · rw [hc]
    exact Int.le_refl 0
  · rw [index_eq x hc]
    cases (x.write chunks o w).1 with
    | error f => exact Int.le_refl 0
    | ok count => exact Int.natCast_nonneg count

/-- The indexer writes to a store in memory, which is a part of its world. Its embedders leave that
part alone. -/
structure Fills (x : Indexer ω) (memory : ω → Memory) (put : Memory → ω → ω) : Prop where
  store : x.store = Memory.backend.within memory put
  memory_put : ∀ m w, memory (put m w) = m
  embed : ∀ tenant texts, ((x.route.select tenant).embed texts).Keeps memory

namespace Fills

theorem prepare (h : x.Fills memory put) (chunks : List Chunk) (o : IndexOptions) :
    (x.prepare chunks o).Keeps memory := by
  have hembed : (x.embed chunks o).Keeps memory := by
    refine .bind (Action.keeps_lift _) fun tenant => .bind (h.embed tenant _) fun vectors => ?_
    by_cases hl : vectors.length = chunks.length
    · rw [if_pos hl]
      exact Action.keeps_pure _
    · rw [if_neg hl]
      exact fun _ => rfl
  exact hembed.bind fun _ => .bind (Action.keeps_read _) fun _ => .bind (Action.keeps_lift _)
    fun _ => Action.keeps_lift _

/-- Chunks are indexed as records of their own, or the report counts none and the store is as it
was. -/
theorem index_cases (h : x.Fills memory put) (chunks : List Chunk) (o : IndexOptions) (w : ω) :
    (chunks = [] ∨ (x.index chunks o w).1.succeeded = false) ∧
        (x.index chunks o w).1.vectorsCreated = 0 ∧ memory (x.index chunks o w).2 = memory w ∨
      chunks ≠ [] ∧ (x.index chunks o w).1 = ⟨chunks.length, chunks.length, none⟩ ∧
        ∃ createdAt vectors, vectors.length = chunks.length ∧
          (∀ c ∈ chunks, (Record.metadataOf c o createdAt).isLegible Key.sourceUri = true) ∧
          memory (x.index chunks o w).2 = (if o.replaces then (memory w).purge o else memory w).store
            (Record.ofChunks o createdAt chunks vectors) o.collection := by
  by_cases hc : chunks = []
  · subst hc
    exact Or.inl ⟨Or.inl rfl, rfl, rfl⟩
  · have hkept := h.prepare chunks o w
    rw [index_eq x hc]
    rcases hp : x.prepare chunks o w with ⟨f | records, w'⟩ <;> rw [hp] at hkept
    · left
      rw [write_refused hp]
      exact ⟨Or.inr rfl, rfl, hkept⟩
    · right
      obtain ⟨hcount, hmemory⟩ := memory_write h.store h.memory_put hp
      obtain ⟨createdAt, vectors, hl, hlegible, rfl⟩ := eq_ofChunks_of_prepare hp
      refine ⟨hc, ?_, createdAt, vectors, hl, hlegible, ?_⟩
      · rw [hcount, length_ofChunks hl, report]
      · rw [hmemory]
        dsimp only at hkept
        rw [hkept]

end Fills

end Indexer

end Retrieval
