import Mathlib.Data.Multiset.UnionInter
import Retrieval.Proofs.Index.Identity
import Retrieval.Proofs.Ingest.Serials

/-!
# What a batch writes to its collection

The documents of a batch are indexed under the same options but for the versions that are made for
them. Every chunk has an id of its own, so no record is written over: a step leaves the collection
as it is, or it appends the records of a document to what is left of it.
-/

namespace Retrieval

open Text

namespace Stage

def chunks : Stage → List Chunk
  | .prepared _ _ chunks => chunks
  | _ => []

theorem prepared_of_chunks {s : Stage} (h : s.chunks ≠ []) :
    ∃ o d chunks, s = .prepared o d chunks := by
  cases s with
  | prepared o d chunks => exact ⟨o, d, chunks, rfl⟩
  | _ => exact absurd rfl h

end Stage

namespace Pipeline

variable {σ : Type} {p : Pipeline σ} {o o' : IndexOptions} {j : Job} {w w' : World σ}
  {s target : Stage}

/-- Chunks have ids of their own, and an indexer writes them to a memory. -/
structure Fills (p : Pipeline σ) (memory : σ → Memory) (put : Memory → σ → σ) : Prop where
  numbers : p.chunker.Numbers
  writes : ∃ x : Indexer σ, x.Fills memory put ∧ p.index = x.index

structure Assigned (p : Pipeline σ) (o o' : IndexOptions) : Prop where
  same : o' = { o with versionId := o'.versionId }
  kept : p.renews o = false → o'.versionId = o.versionId
  made : p.renews o = true → ∃ now serial, o'.versionId = some (Version.newId now serial)

theorem assigned_assignVersion (p : Pipeline σ) (o : IndexOptions) (w : World σ) :
    p.Assigned o (p.assignVersion o w).1 := by
  by_cases h : p.renews o = true
  · rw [assignVersion_of_renews h]
    exact ⟨rfl, fun hn => absurd h (ne_true_of_eq_false hn), fun _ => ⟨_, _, rfl⟩⟩
  · rw [assignVersion_of_not_renews (Bool.eq_false_of_not_eq_true h)]
    exact ⟨rfl, fun _ => rfl, fun hr => absurd hr h⟩

namespace Assigned

variable (h : p.Assigned o o')

include h

theorem collection : o'.collection = o.collection := by rw [h.same]

theorem docName : o'.docName = o.docName := by rw [h.same]; rfl

theorem tenantId : o'.tenantId = o.tenantId := by rw [h.same]

theorem replaces : o'.replaces = o.replaces := by rw [h.same]; rfl

end Assigned

theorem Passes.assigned (hp : p.Passes j w s target w')
    (hs : ∀ o', s.options? = some o' → p.Assigned j.options o') :
    ∀ o', target.options? = some o' → p.Assigned j.options o' := by
  cases hp with
  | asked valid =>
      rintro _ ⟨⟩
      exact p.assigned_assignVersion j.options w
  | loaded loads => exact hs
  | prepared prepares => exact hs
  | indexed o d chunks => exact hs
  | _ => exact fun _ h => (nomatch h)

end Pipeline

def IndexReport.size? (r : IndexReport) : Option Nat :=
  if 0 < r.vectorsCreated then some r.vectorsCreated.toNat else none

def Move.report? {σ : Type} (m : Move σ) : Option IndexReport :=
  match m.target with
  | .indexed _ _ r => some r
  | _ => none

def Move.size? {σ : Type} (m : Move σ) : Option Nat := m.report?.bind IndexReport.size?

namespace Course

variable {σ : Type} {p : Pipeline σ} {jobs : List Job} {permits : Nat} {o o' : IndexOptions}
  {memory : σ → Memory} {put : Memory → σ → σ} {u rest : Course σ} {m : Move σ} {j : Job}
  {chunks : List Chunk} {new : List Record}

def held (memory : σ → Memory) (o : IndexOptions) (u : Course σ) : Table Record :=
  (memory u.world.outside).records o.collection

/-- The numbers of the chunks that are stored or on their way. -/
def marks (memory : σ → Memory) (o : IndexOptions) (u : Course σ) : Multiset (List Char) :=
  ↑((u.held memory o).keys.map (ending 32)) +
    u.total fun s => (↑(s.chunks.map fun c => ending 32 c.id) : Multiset (List Char))

/-- Every document goes on, and every record was written, under options of the batch. -/
structure Assigns (p : Pipeline σ) (memory : σ → Memory) (o : IndexOptions) (u : Course σ) :
    Prop where
  going : ∀ x ∈ u.going, ∀ o', x.2.options? = some o' → p.Assigned o o'
  held : ∀ r ∈ (u.held memory o).values, ∃ o' createdAt c v,
    p.Assigned o o' ∧ r = Record.ofChunk o' createdAt c v

/-- Every chunk that is stored or on its way has a number of its own. -/
structure Numbered (memory : σ → Memory) (o : IndexOptions) (u : Course σ) : Prop where
  keyed : Memory.Keyed (u.held memory o)
  marks : (u.marks memory o).Nodup
  past : ∀ k ∈ u.marks memory o, ∃ serial < u.world.chunkSerial, k = hexDigits 32 serial
  long : ∀ x ∈ u.going, ∀ c ∈ x.2.chunks, 32 ≤ c.id.toList.length

/-- With this step records were written, for the chunks of a document that was on its way. -/
structure Indexes (p : Pipeline σ) (memory : σ → Memory) (o : IndexOptions) (u : Course σ)
    (m : Move σ) (o' : IndexOptions) (chunks : List Chunk) (new : List Record) : Prop where
  assigned : p.Assigned o o'
  source : ∃ d, m.source = .prepared o' d chunks
  target : ∃ d, m.target = .indexed o' d ⟨chunks.length, chunks.length, none⟩
  nonempty : chunks ≠ []
  records : ∃ createdAt vectors, vectors.length = chunks.length ∧
    new = Record.ofChunks o' createdAt chunks vectors
  marks : new.map (fun r => ending 32 r.id) = chunks.map fun c => ending 32 c.id
  held : (memory m.after.outside).records o.collection =
    (if o.replaces then (u.held memory o).withoutFirst o'.supersedes 10000 else u.held memory o) ++
      new.map fun r => (r.id, r)

theorem ending_idOf (o : IndexOptions) {c : Chunk} (h : 32 ≤ c.id.toList.length) :
    ending 32 (Record.idOf c o) = ending 32 c.id := by
  unfold Record.idOf
  split
  · exact ending_append _ h
  · rfl

/-- The chunks of a document on its way have ids that nothing in the collection has. -/
theorem Numbered.new_ids (hn : Numbered memory o u) (hm : Moved p jobs permits u rest m j)
    (hgoing : (m.number, m.source) ∈ u.going) (o' : IndexOptions) (createdAt : String)
    {vectors : List Embedding} (hl : vectors.length = m.source.chunks.length) :
    let new := Record.ofChunks o' createdAt m.source.chunks vectors
    (new.map fun r => ending 32 r.id) = (m.source.chunks.map fun c => ending 32 c.id) ∧
      (new.map (·.id)).Nodup ∧ ∀ r ∈ new, r.id ∉ (u.held memory o).keys := by
  intro new
  have hlong := hn.long _ hgoing
  have hmarks : (new.map fun r => ending 32 r.id) =
      m.source.chunks.map fun c => ending 32 c.id := by
    have hids : (new.map (·.id)) = m.source.chunks.map fun c => Record.idOf c o' :=
      Record.map_ofChunks hl fun _ _ _ => rfl
    have hendings := congrArg (List.map (ending 32)) hids
    rw [List.map_map, List.map_map] at hendings
    exact hendings.trans (List.map_congr_left fun c hc => ending_idOf o' (hlong c hc))
  have hall := hn.marks
  rw [Course.marks, (hm.total rfl fun _ => rfl).1, ← add_assoc] at hall
  obtain ⟨hboth, -, -⟩ := Multiset.nodup_add.1 hall
  obtain ⟨-, hchunks, hapart⟩ := Multiset.nodup_add.1 hboth
  rw [Multiset.coe_nodup, ← hmarks] at hchunks
  refine ⟨hmarks, ?_, ?_⟩
  · refine List.Nodup.of_map (ending 32) ?_
    rwa [List.map_map]
  · intro r hr hkey
    have hmark : ending 32 r.id ∈ m.source.chunks.map fun c => ending 32 c.id :=
      hmarks ▸ List.mem_map_of_mem hr
    exact Multiset.disjoint_left.1 hapart (List.mem_map_of_mem hkey) hmark

theorem Moved.held_or_indexes (hfills : p.Fills memory put) (hholds : p.Holds memory)
    (hm : Moved p jobs permits u rest m j) (ha : Assigns p memory o u)
    (hn : Numbered memory o u) :
    (rest.place m).held memory o = u.held memory o ∧ m.size? = none ∨
      ∃ o' chunks new, Indexes p memory o u m o' chunks new := by
  have hpasses := hm.passes
  by_cases hs : ∃ o' d chunks, m.source = .prepared o' d chunks
  · obtain ⟨o', d, chunks, hs⟩ := hs
    have hgoing : (m.number, m.source) ∈ u.going := by
      rcases hm.picks.source with hq | hg
      · rw [hs] at hq
        cases hq
      · exact hg
    have hassigned : p.Assigned o o' := ha.going _ hgoing o' (by rw [hs]; rfl)
    obtain ⟨htarget, hafter⟩ := (hs ▸ hpasses).of_prepared
    obtain ⟨x, hx, hindex⟩ := hfills.writes
    rw [hindex] at htarget hafter
    rcases hx.index_cases chunks o' u.world.outside with
      ⟨-, hnone, hsame⟩ | ⟨hsome, hreport, hwrote⟩
    · left
      refine ⟨?_, ?_⟩
      · show (memory m.after.outside).records o.collection = _
        rw [hafter]
        exact congrArg (Memory.records · o.collection) hsame
      · rw [Move.size?, Move.report?, htarget]
        exact if_neg (by rw [hnone]; exact Int.lt_irrefl 0)
    · right
      obtain ⟨createdAt, vectors, hl, -, hmemory⟩ := hwrote
      have hchunks : m.source.chunks = chunks := by rw [hs]; rfl
      obtain ⟨hmarks, hids, hnew⟩ := hn.new_ids hm hgoing o' createdAt
        (hchunks.symm ▸ hl)
      rw [hchunks] at hmarks hids hnew
      refine ⟨o', chunks, _, hassigned, ⟨d, hs⟩, ⟨d, ?_⟩, hsome, ⟨createdAt, vectors, hl, rfl⟩,
        hmarks, ?_⟩
      · rw [htarget, hreport]
      · have hkeyed := hn.keyed
        rw [Course.held, ← hassigned.collection] at hkeyed hnew
        have hwritten := Memory.records_indexed hkeyed hids hnew
        rw [← hmemory, hassigned.collection, hassigned.replaces] at hwritten
        rw [hafter]
        exact hwritten
  · left
    refine ⟨?_, ?_⟩
    · show (memory m.after.outside).records o.collection = _
      rw [hholds.passes hpasses fun o' d chunks h => hs ⟨o', d, chunks, h⟩]
      rfl
    · rw [Move.size?, Move.report?]
      split
      · rename_i o' d r ht
        obtain ⟨chunks, hchunks⟩ := (ht ▸ hpasses).source_of_indexed
        exact absurd ⟨o', d, chunks, hchunks⟩ hs
      · rfl

theorem sublist_held (memory : σ → Memory) (o o' : IndexOptions) (u : Course σ) :
    ((if o.replaces then (u.held memory o).withoutFirst o'.supersedes 10000
      else u.held memory o) : Table Record).Sublist (u.held memory o) := by
  split
  · exact Table.withoutFirst_sublist _ _
  · exact List.Sublist.refl _

namespace Indexes

variable (hi : Indexes p memory o u m o' chunks new)

include hi

theorem mem_held {e : String × Record} (he : e ∈ (rest.place m).held memory o) :
    e ∈ u.held memory o ∨ ∃ r ∈ new, e = (r.id, r) := by
  have heq : (rest.place m).held memory o = _ := hi.held
  rw [heq] at he
  rcases List.mem_append.1 he with he | he
  · exact Or.inl ((sublist_held memory o o' u).subset he)
  · obtain ⟨r, hr, rfl⟩ := List.mem_map.1 he
    exact Or.inr ⟨r, hr, rfl⟩

theorem exists_of_mem {r : Record} (hr : r ∈ new) :
    ∃ createdAt c v, r = Record.ofChunk o' createdAt c v := by
  obtain ⟨createdAt, vectors, -, rfl⟩ := hi.records
  obtain ⟨c, v, -, rfl⟩ := Record.exists_of_mem_ofChunks hr
  exact ⟨createdAt, c, v, rfl⟩

theorem size : m.size? = some chunks.length := by
  obtain ⟨d, htarget⟩ := hi.target
  have hpos : 0 < chunks.length := List.length_pos_of_ne_nil hi.nonempty
  rw [Move.size?, Move.report?, htarget]
  exact if_pos (by dsimp only; omega)

end Indexes

theorem Assigns.moved (hjobs : ∀ j ∈ jobs, j.options = o)
    (hm : Moved p jobs permits u rest m j)
    (hcases : (rest.place m).held memory o = u.held memory o ∧ m.size? = none ∨
      ∃ o' chunks new, Indexes p memory o u m o' chunks new)
    (h : Assigns p memory o u) : Assigns p memory o (rest.place m) := by
  have hjob : j.options = o := hjobs j (List.mem_of_getElem? hm.job)
  refine ⟨?_, ?_⟩
  · intro x hx
    rcases (going_place rest m x).1 hx with hx | ⟨-, rfl⟩
    · exact h.going x (hm.picks.mem_going hx)
    · rw [← hjob]
      refine hm.passes.assigned ?_
      rcases hm.picks.source with hs | hs
      · rw [hs]
        exact fun _ h => (nomatch h)
      · rw [hjob]
        exact h.going _ hs
  · intro r hr
    obtain ⟨e, he, rfl⟩ := List.mem_map.1 hr
    rcases hcases with ⟨hsame, -⟩ | ⟨o', chunks, new, hi⟩
    · exact h.held _ (List.mem_map_of_mem (hsame ▸ he))
    · rcases hi.mem_held he with he | ⟨r, hnew, rfl⟩
      · exact h.held _ (List.mem_map_of_mem he)
      · obtain ⟨createdAt, c, v, heq⟩ := hi.exists_of_mem hnew
        exact ⟨o', createdAt, c, v, hi.assigned, heq⟩

theorem Moved.marks_le (hm : Moved p jobs permits u rest m j) (htarget : m.target.chunks = [])
    (hcases : (rest.place m).held memory o = u.held memory o ∧ m.size? = none ∨
      ∃ o' chunks new, Indexes p memory o u m o' chunks new) :
    (rest.place m).marks memory o ≤ u.marks memory o := by
  obtain ⟨hbefore, hafter⟩ := hm.total
    (f := fun s => (↑(s.chunks.map fun c => ending 32 c.id) : Multiset (List Char))) rfl
    fun _ => rfl
  rw [marks, marks, hbefore, hafter, htarget, List.map_nil, Multiset.coe_nil, zero_add,
    ← add_assoc]
  refine add_le_add_left ?_ _
  rcases hcases with ⟨hsame, -⟩ | ⟨o', chunks, new, hi⟩
  · rw [hsame]
    exact Multiset.le_add_right _ _
  · obtain ⟨d, hsource⟩ := hi.source
    have heq : (rest.place m).held memory o = _ := hi.held
    rw [heq, hsource]
    have hkeys : Table.keys (new.map fun r => (r.id, r)) = new.map (·.id) := by
      rw [Table.keys, List.map_map]
      rfl
    have hmarks : (Table.keys (new.map fun r => (r.id, r))).map (ending 32) =
        chunks.map fun c => ending 32 c.id := by
      rw [hkeys, List.map_map, ← hi.marks]
      rfl
    rw [Table.keys, List.map_append, List.map_append]
    rw [Table.keys] at hmarks
    rw [hmarks, ← Multiset.coe_add]
    exact add_le_add_left (Multiset.coe_le.2 (((sublist_held memory o o' u).map _).map _).subperm) _

/-- Chunks that are cut have numbers that no other chunk has, as long as numbers do not run out. -/
theorem Numbered.marks_prepared (hnumbers : p.chunker.Numbers)
    (hm : Moved p jobs permits u rest m j) {o' : IndexOptions} {d : Document}
    {chunks : List Chunk} (htarget : m.target = .prepared o' d chunks)
    (hheld : (rest.place m).held memory o = u.held memory o)
    (hbound : m.after.chunkSerial ≤ 16 ^ 32) (hn : Numbered memory o u) :
    ((rest.place m).marks memory o).Nodup ∧
      ∀ k ∈ (rest.place m).marks memory o, ∃ serial < m.after.chunkSerial,
        k = hexDigits 32 serial := by
  obtain ⟨hsource, hprepare⟩ := (htarget ▸ hm.passes).of_target_prepared
  obtain ⟨hserial, -, hendings, -⟩ := Pipeline.prepare_numbers hnumbers hprepare
  obtain ⟨hbefore, hafter⟩ := hm.total
    (f := fun s => (↑(s.chunks.map fun c => ending 32 c.id) : Multiset (List Char))) rfl
    fun _ => rfl
  have hmarks : (rest.place m).marks memory o =
      ↑(chunks.map fun c => ending 32 c.id) + u.marks memory o := by
    rw [Course.marks, Course.marks, hbefore, hafter, hheld, htarget, hsource]
    simp only [Stage.chunks, List.map_nil, Multiset.coe_nil, zero_add]
    exact add_left_comm _ _ _
  rw [hmarks, hendings]
  refine ⟨Multiset.nodup_add.2 ⟨?_, hn.marks, ?_⟩, ?_⟩
  · refine List.Nodup.map_on ?_ List.nodup_range'
    intro a ha b hb he
    rw [List.mem_range'_1] at ha hb
    exact hexDigits_inj (by omega) (by omega) he
  · refine Multiset.disjoint_left.2 fun {k} hk hold => ?_
    obtain ⟨a, ha, rfl⟩ := List.mem_map.1 (Multiset.mem_coe.1 hk)
    obtain ⟨b, hb, he⟩ := hn.past _ hold
    rw [List.mem_range'_1] at ha
    have heq := hexDigits_inj (by omega) (by omega) he
    omega
  · intro k hk
    rcases Multiset.mem_add.1 hk with hk | hk
    · obtain ⟨a, ha, rfl⟩ := List.mem_map.1 (Multiset.mem_coe.1 hk)
      rw [List.mem_range'_1] at ha
      exact ⟨a, by omega, rfl⟩
    · obtain ⟨b, hb, he⟩ := hn.past k hk
      exact ⟨b, by omega, he⟩

theorem Numbered.moved (hnumbers : p.chunker.Numbers) (hm : Moved p jobs permits u rest m j)
    (hcases : (rest.place m).held memory o = u.held memory o ∧ m.size? = none ∨
      ∃ o' chunks new, Indexes p memory o u m o' chunks new)
    (hbound : m.after.chunkSerial ≤ 16 ^ 32) (hn : Numbered memory o u) :
    Numbered memory o (rest.place m) := by
  have hmarks : ((rest.place m).marks memory o).Nodup ∧
      ∀ k ∈ (rest.place m).marks memory o, ∃ serial < m.after.chunkSerial,
        k = hexDigits 32 serial := by
    by_cases ht : m.target.chunks = []
    · have hle := hm.marks_le ht hcases
      refine ⟨Multiset.nodup_of_le hle hn.marks, fun k hk => ?_⟩
      obtain ⟨serial, hserial, he⟩ := hn.past k (Multiset.mem_of_le hle hk)
      exact ⟨serial, Nat.lt_of_lt_of_le hserial hm.passes.serials.1, he⟩
    · obtain ⟨o', d, chunks, htarget⟩ := Stage.prepared_of_chunks ht
      refine hn.marks_prepared hnumbers hm htarget ?_ hbound
      rcases hcases with ⟨hsame, -⟩ | ⟨o'', chunks', new, hi⟩
      · exact hsame
      · obtain ⟨d', hindexed⟩ := hi.target
        rw [htarget] at hindexed
        cases hindexed
  refine ⟨⟨?_, ?_⟩, hmarks.1, hmarks.2, ?_⟩
  · obtain ⟨hkeys, -, -⟩ := Multiset.nodup_add.1 hmarks.1
    exact List.Nodup.of_map _ (Multiset.coe_nodup.1 hkeys)
  · intro e he
    rcases hcases with ⟨hsame, -⟩ | ⟨o', chunks, new, hi⟩
    · exact hn.keyed.2 e (hsame ▸ he)
    · rcases hi.mem_held he with he | ⟨r, -, rfl⟩
      · exact hn.keyed.2 e he
      · rfl
  · intro x hx c hc
    rcases (going_place rest m x).1 hx with hx | ⟨-, rfl⟩
    · exact hn.long x (hm.picks.mem_going hx) c hc
    · obtain ⟨o', d, chunks, htarget⟩ := Stage.prepared_of_chunks (List.ne_nil_of_mem hc)
      dsimp only at htarget hc
      obtain ⟨-, hprepare⟩ := (htarget ▸ hm.passes).of_target_prepared
      rw [htarget] at hc
      exact (Pipeline.prepare_numbers hnumbers hprepare).2.2.2 c hc

end Course

end Retrieval
