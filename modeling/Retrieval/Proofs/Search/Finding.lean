import Mathlib.Data.List.Perm.Basic
import Retrieval.Proofs.Effect.Traversing
import Retrieval.Proofs.Index.Identity
import Retrieval.Proofs.Text.Trim
import Retrieval.Search.Retriever

/-!
# Finding again what was indexed

A search that asks for enough gives every record that its filter accepts. A chunk is found again
with its id, its text and its positions, unless it says something else of its positions itself: what
a chunk says comes before what is known of it.
-/

namespace Retrieval

theorem Tenant.isBlank_of_isIdChar {c : Char} (h : isIdChar c = true) :
    Text.isBlank c = false := by
  simp only [isIdChar, Bool.or_eq_true, beq_iff_eq] at h
  rcases h with (halphanum | rfl) | rfl
  · obtain ⟨hlow, hhigh⟩ := Text.bounds_of_isAlphanum halphanum
    exact Text.isBlank_of_sign (by omega) (by omega)
  · decide
  · decide

namespace Chunk

/-- What a chunk is cut out as: its id, its text and where the text stands. -/
def passage (c : Chunk) : String × String × Span := (c.id, c.text, ⟨c.start, c.stop⟩)

/-- The chunk says nothing of its positions, or where it stands. -/
def Truthful (c : Chunk) : Prop :=
  ∀ value, ((Key.startIndex, value) ∈ c.metadata.getD [] → value.toInt? = .ok (some c.start)) ∧
    ((Key.endIndex, value) ∈ c.metadata.getD [] → value.toInt? = .ok (some c.stop))

end Chunk

namespace Record

variable {o : IndexOptions} {c : Chunk}

theorem int?_ofChunk {key : String} {n : Nat} (hkey : ¬ isIdentity key) (createdAt : String)
    (hknown : (defaults c o.docName createdAt).get? key = some (.int n))
    (hown : ∀ value, (key, value) ∈ c.metadata.getD [] → value.toInt? = .ok (some (n : Int)))
    (v : Embedding) : (ofChunk o createdAt c v).fields.int? key = .ok (some (n : Int)) := by
  rw [Fields.int?, get?_ofChunk_of_other o createdAt c v hkey, described]
  rcases Table.get?_update (defaults c o.docName createdAt) (c.metadata.getD []) key with
    h | ⟨value, hmem, h⟩
  · rw [h, hknown]
    rfl
  · rw [h]
    exact hown value hmem

theorem idOf_inj {d : Chunk} (h : idOf c o = idOf d o) : c.id = d.id := by
  unfold idOf at h
  split at h
  · exact (String.append_right_inj _).1 h
  · exact h

theorem idOf_eq_id (h : given o.docId = none ∨ given o.versionId = none) : idOf c o = c.id := by
  unfold idOf
  rcases h with h | h
  · rw [h]
  · rw [h]
    cases given o.docId <;> rfl

end Record

namespace Source

open Record

variable {o : IndexOptions} {c : Chunk}

theorem positions_of_lt {start stop : Nat} (h : start < stop) (length : Nat) :
    positions (some (start : Int)) (some (stop : Int)) length = (start, stop) := by
  have husable : (0 : Int) ≤ start ∧ (start : Int) < stop := by omega
  rw [positions, if_pos husable, Int.toNat_natCast, Int.toNat_natCast]

theorem exists_reference {fields : Fields} {key : String} (h : fields.isLegible key = true)
    (name : Option String) : ∃ found, fields.reference name key = .ok found := by
  unfold Fields.reference
  cases given name with
  | some s => exact ⟨some s, rfl⟩
  | none => exact ⟨_, Fields.text?_of_isLegible h⟩

/-- The record of a chunk leads back to it, as long as the source that the chunk names has a text. -/
theorem ofMatch_ofChunk {createdAt : String} (hspan : c.start < c.stop) (htruthful : c.Truthful)
    (hnamed : c.id = "" → given o.docId = none ∨ given o.versionId = none)
    (hlegible : (metadataOf c o createdAt).isLegible Key.sourceUri = true)
    (v : Embedding) (score : Float) :
    ∃ s, ofMatch ⟨ofChunk o createdAt c v, score⟩ = .ok s ∧ s.chunk.passage = c.passage := by
  have hstart : (ofChunk o createdAt c v).fields.int? Key.startIndex = .ok (some (c.start : Int)) :=
    int?_ofChunk (by unfold isIdentity; decide) createdAt rfl (fun value => (htruthful value).1) v
  have hstop : (ofChunk o createdAt c v).fields.int? Key.endIndex = .ok (some (c.stop : Int)) :=
    int?_ofChunk (by unfold isIdentity; decide) createdAt rfl (fun value => (htruthful value).2) v
  have hid : (given (some c.id)).getD (idOf c o) = c.id := by
    by_cases h : c.id = ""
    · rw [idOf_eq_id (hnamed h), h]
      rfl
    · rw [given, Option.filter_some, if_pos (by simpa using h)]
      rfl
  have hpositions := positions_of_lt hspan c.text.length
  have hdoc : (ofChunk o createdAt c v).fields.isLegible Key.docId = true := by
    rw [Fields.isLegible, get?_docId_ofChunk]
    rfl
  obtain ⟨source, hsource⟩ := exists_reference hlegible (ofChunk o createdAt c v).sourceUri
  obtain ⟨doc, hdoc⟩ := exists_reference hdoc (ofChunk o createdAt c v).docId
  have hreads : (ofChunk o createdAt c v).fields.reference (ofChunk o createdAt c v).sourceUri
      Key.sourceUri = .ok source := hsource
  unfold ofMatch
  dsimp only
  rw [hstart, hstop, hreads, hdoc]
  refine ⟨_, rfl, ?_⟩
  show ((given (some c.id)).getD (idOf c o), c.text,
    Span.mk (positions (some (c.start : Int)) (some (c.stop : Int)) c.text.length).1
      (positions (some (c.start : Int)) (some (c.stop : Int)) c.text.length).2) = c.passage
  rw [hid, hpositions]
  rfl

theorem mapM_eq_ok {found : List Match} (h : ∀ m ∈ found, ∃ s, ofMatch m = .ok s) :
    ∃ sources : List Source, (found.mapM ofMatch : Outcome (List Source)) = .ok sources ∧
      found.map ofMatch = sources.map .ok := by
  rcases Outcome.mapM_cases ofMatch found with hsources | ⟨m, hm, fault, hfault, -⟩
  · exact hsources
  · obtain ⟨s, hs⟩ := h m hm
    cases hs.symm.trans hfault

end Source

namespace Search

theorem checkTenant_of_isValidId {s : Search} (h : Tenant.isValidId s.tenant = true) :
    s.checkTenant = .ok s.tenant := by
  have hvisible : Text.trim s.tenant.toList ≠ [] := by
    intro hblank
    rw [Tenant.isValidId, Bool.and_eq_true, Bool.and_eq_true, decide_eq_true_eq] at h
    obtain ⟨⟨hlength, -⟩, hsigns⟩ := h
    cases htext : s.tenant.toList with
    | nil => simp [← String.length_toList, htext] at hlength
    | cons c rest =>
        rw [htext] at hblank hsigns
        have hc : Tenant.isIdChar c = true := List.all_eq_true.1 hsigns c List.mem_cons_self
        have hb : Text.isBlank c = true := Text.trim_eq_nil_iff.1 hblank c List.mem_cons_self
        rw [Tenant.isBlank_of_isIdChar hc] at hb
        cases hb
  rw [checkTenant, if_neg (by simpa using hvisible), Tenant.checkId_of_isValidId h]

end Search

variable {ω : Type} {x : Indexer ω} {memory : ω → Memory} {put : Memory → ω → ω}
  {chunks : List Chunk} {o : IndexOptions} {w w' w'' : ω}

theorem Indexer.Fills.records_of_succeeded (h : x.Fills memory put)
    (hindexed : (x.index chunks o w).1.succeeded = true)
    (hempty : (memory w).records o.collection = []) (hids : (chunks.map (·.id)).Nodup) :
    ∃ createdAt vectors, vectors.length = chunks.length ∧
      (∀ c ∈ chunks, (Record.metadataOf c o createdAt).isLegible Key.sourceUri = true) ∧
      ((memory (x.index chunks o w).2).records o.collection).values =
        Record.ofChunks o createdAt chunks vectors := by
  rcases h.index_cases chunks o w with
    ⟨hnone, -, hsame⟩ | ⟨-, -, createdAt, vectors, hl, hlegible, hmemory⟩
  · rcases hnone with rfl | hfailed
    · refine ⟨"", [], rfl, fun c hc => (List.not_mem_nil hc).elim, ?_⟩
      rw [hsame, hempty]
      rfl
    · rw [hfailed] at hindexed
      cases hindexed
  · refine ⟨createdAt, vectors, hl, hlegible, ?_⟩
    have hkeyed : Memory.Keyed ((memory w).records o.collection) := by
      rw [hempty]
      exact ⟨List.nodup_nil, fun _ he => nomatch he⟩
    have hnew : ((Record.ofChunks o createdAt chunks vectors).map (·.id)).Nodup := by
      have hnames : (Record.ofChunks o createdAt chunks vectors).map (·.id) =
          chunks.map fun c => Record.idOf c o := Record.map_ofChunks hl fun _ _ _ => rfl
      rw [hnames]
      exact (List.pairwise_map.1 hids).map _ fun c d hne he => hne (Record.idOf_inj he)
    have hnothing : ∀ r ∈ Record.ofChunks o createdAt chunks vectors,
        r.id ∉ ((memory w).records o.collection).keys := by
      intro r _
      rw [hempty]
      exact List.not_mem_nil
    have hleft : (if o.replaces then Table.withoutFirst o.supersedes 10000 []
        else ([] : Table Record)) = [] := by
      split <;> rfl
    rw [hmemory, Memory.records_indexed hkeyed hnew hnothing, hempty, hleft, List.nil_append,
      Table.values, List.map_map]
    exact List.map_id _

theorem Retriever.retrieve_eq {r : Retriever ω} {s : Search}
    (hstore : r.store = Memory.backend.within memory put)
    (htenant : Tenant.isValidId s.tenant = true) {vector : Embedding} {others : List Embedding}
    (hembed : (r.route.select s.tenant).embed [s.query] w = (.ok (vector :: others), w')) :
    r.retrieve s w =
      (((memory w').search (s.lookup vector)).bind fun found =>
        (found.mapM Source.ofMatch : Outcome (List Source)).map fun sources => ⟨sources, vector⟩,
        put (memory w') w') := by
  have htenants : (liftM s.checkTenant : Action ω String) w = (.ok s.tenant, w) := by
    rw [Action.lift_apply, Search.checkTenant_of_isValidId htenant]
  have hquery : r.embedQuery s w = (.ok vector, w') := by
    rw [embedQuery, Action.bind_ok hembed]
    rfl
  have hlookup : r.store.query (s.lookup vector) w' =
      ((memory w').search (s.lookup vector), put (memory w') w') := by
    rw [hstore]
    rfl
  rw [retrieve, Action.bind_ok htenants, Action.bind_ok hquery]
  cases hfound : (memory w').search (s.lookup vector) with
  | error fault =>
      rw [hfound] at hlookup
      rw [Action.bind_error hlookup]
      rfl
  | ok found =>
      rw [hfound] at hlookup
      rw [Action.bind_ok hlookup, Outcome.bind_ok]
      cases (found.mapM Source.ofMatch : Outcome (List Source)) <;> rfl

theorem Retriever.retrieve_eq_ok {r : Retriever ω} {s : Search}
    (hstore : r.store = Memory.backend.within memory put)
    (htenant : Tenant.isValidId s.tenant = true) {vector : Embedding} {others : List Embedding}
    (hembed : (r.route.select s.tenant).embed [s.query] w = (.ok (vector :: others), w'))
    {found : List Match} (hfound : (memory w').search (s.lookup vector) = .ok found)
    {sources : List Source}
    (hsources : (found.mapM Source.ofMatch : Outcome (List Source)) = .ok sources) :
    r.retrieve s w = (.ok ⟨sources, vector⟩, put (memory w') w') := by
  rw [retrieve_eq hstore htenant hembed, hfound, Outcome.bind_ok, hsources]
  rfl

/-- The records of chunks, found in any order and with any scores, lead back to all of them. -/
theorem Source.passages_of_perm {createdAt : String} {vectors : List Embedding}
    (hl : vectors.length = chunks.length) (hspan : ∀ c ∈ chunks, c.start < c.stop)
    (htruthful : ∀ c ∈ chunks, c.Truthful)
    (hnamed : ∀ c ∈ chunks, c.id = "" → given o.docId = none ∨ given o.versionId = none)
    (hlegible : ∀ c ∈ chunks, (Record.metadataOf c o createdAt).isLegible Key.sourceUri = true)
    {found : List Match} {score : Record → Float}
    (hfound : found.Perm ((Record.ofChunks o createdAt chunks vectors).map
      fun r => ⟨r, score r⟩)) :
    ∃ sources : List Source, (found.mapM ofMatch : Outcome (List Source)) = .ok sources ∧
      (sources.map (·.chunk.passage)).Perm (chunks.map Chunk.passage) := by
  have hback (c : Chunk) (hc : c ∈ chunks) (v : Embedding) (a : Float) :=
    ofMatch_ofChunk (hspan c hc) (htruthful c hc) (hnamed c hc) (hlegible c hc) v a
  have hread : ∀ m ∈ found, ∃ s, ofMatch m = .ok s := by
    intro m hm
    obtain ⟨r, hr, rfl⟩ := List.mem_map.1 (hfound.subset hm)
    obtain ⟨c, v, hc, rfl⟩ := Record.exists_of_mem_ofChunks hr
    obtain ⟨s, hs, -⟩ := hback c hc v (score (Record.ofChunk o createdAt c v))
    exact ⟨s, hs⟩
  obtain ⟨sources, hsources, hmap⟩ := mapM_eq_ok hread
  refine ⟨sources, hsources, ?_⟩
  -- The passage a match leads back to does not depend on its score.
  let told (outcome : Outcome Source) : Option (String × String × Span) :=
    outcome.toOption.map (·.chunk.passage)
  have hsame : (Record.ofChunks o createdAt chunks vectors).map
      (fun r => told (ofMatch ⟨r, score r⟩)) = chunks.map fun c => some c.passage := by
    refine Record.map_ofChunks hl fun c hc v => ?_
    obtain ⟨s, hs, hpassage⟩ := hback c hc v (score (Record.ofChunk o createdAt c v))
    rw [hs, ← hpassage]
    rfl
  have htold : found.map (fun m => told (ofMatch m)) =
      sources.map fun s => some s.chunk.passage := by
    have h := congrArg (List.map told) hmap
    rwa [List.map_map, List.map_map] at h
  have hpassages := hfound.map fun m => told (ofMatch m)
  rw [htold, List.map_map] at hpassages
  rw [← List.map_perm_map_iff (fun _ _ => Option.some.inj), List.map_map, List.map_map]
  exact hpassages.trans (.of_eq hsame)

/-- What was indexed into an empty collection is what its tenant finds there: each chunk once, with
its id, its text and its positions, as long as no chunk says anything else of its positions, and
none goes without an id while document and version are given. -/
theorem Retriever.finds_what_was_indexed (hfills : x.Fills memory put)
    (htenant : Tenant.isValidId o.tenantId = true)
    (hempty : (memory w).records o.collection = []) (hids : (chunks.map (·.id)).Nodup)
    (hspan : ∀ c ∈ chunks, c.start < c.stop) (htruthful : ∀ c ∈ chunks, c.Truthful)
    (hnamed : ∀ c ∈ chunks, c.id = "" → given o.docId = none ∨ given o.versionId = none)
    (hindexed : (x.index chunks o w).1.succeeded = true)
    (hmemory : memory w' = memory (x.index chunks o w).2)
    {r : Retriever ω} (hstore : r.store = x.store) {query : String} {vector : Embedding}
    {others : List Embedding} (hembed : (r.route.select o.tenantId).embed [query] w' =
      (.ok (vector :: others), w'')) (hkept : memory w'' = memory w')
    {topK : Int} (htop : (chunks.length : Int) ≤ topK) :
    ∃ found after, r.retrieve ⟨query, o.tenantId, topK, none, o.collection⟩ w' =
        (.ok found, after) ∧
      (found.sources.map (·.chunk.passage)).Perm (chunks.map Chunk.passage) := by
  obtain ⟨createdAt, vectors, hl, hlegible, hvalues⟩ :=
    hfills.records_of_succeeded hindexed hempty hids
  rw [← hmemory, ← hkept] at hvalues
  have hlength : (((memory w'').records o.collection).length : Int) ≤ topK := by
    have hcount := congrArg List.length hvalues
    rw [Table.values, List.length_map, Indexer.length_ofChunks hl] at hcount
    omega
  have hall : ((Record.ofChunks o createdAt chunks vectors).filter
      fun r => (Filter.ofTenant o.tenantId).accepts r.fields) =
        Record.ofChunks o createdAt chunks vectors := by
    apply List.filter_eq_self.2
    intro record hr
    obtain ⟨c, v, -, rfl⟩ := Record.exists_of_mem_ofChunks hr
    have hscope := Record.inScope_eq (Record.get?_tenantId_ofChunk o createdAt c v) o.tenantId
    rwa [beq_self_eq_true] at hscope
  have hsearch := Memory.search_eq_rank (m := memory w'')
    (q := ⟨some vector, topK, some (.ofTenant o.tenantId), some o.tenantId, o.collection⟩)
    rfl rfl (fun r _ => Filter.isLegible_equals_text Key.tenantId o.tenantId r.fields) hlength
  dsimp only at hsearch
  rw [hvalues, hall] at hsearch
  obtain ⟨score, hranked⟩ := Memory.rank_perm (some vector)
    (Record.ofChunks o createdAt chunks vectors)
  obtain ⟨sources, hsources, hpassages⟩ :=
    Source.passages_of_perm hl hspan htruthful hnamed hlegible hranked
  have hfinds := retrieve_eq_ok (s := ⟨query, o.tenantId, topK, none, o.collection⟩)
    (hstore.trans hfills.store) htenant hembed hsearch hsources
  exact ⟨_, _, hfinds, hpassages⟩

theorem Retriever.two_chunks_of_guide_are_found :
    let route : Routing Memory := ⟨⟨"unit", fun texts => pure (texts.map fun _ => [1])⟩, []⟩
    let x : Indexer Memory := ⟨route, Memory.backend, fun _ => .epoch⟩
    let r : Retriever Memory := ⟨route, Memory.backend⟩
    let o : IndexOptions := ⟨"acme", some "guide", some "v1", none, .update, true⟩
    let chunks : List Chunk :=
      [⟨"a", "alpha", 0, 5, none⟩, ⟨"b", "beta", 5, 9, some [(Key.startIndex, .text "5")]⟩]
    let after := (x.index chunks o (.empty "default")).2
    ∃ found m, r.retrieve ⟨"alpha", "acme", 2, none, none⟩ after = (.ok found, m) ∧
      (found.sources.map (·.chunk.passage)).Perm
        [("a", "alpha", ⟨0, 5⟩), ("b", "beta", ⟨5, 9⟩)] := by
  intro route x r o chunks after
  have hfills : x.Fills id (fun m _ => m) := ⟨rfl, fun _ _ => rfl, fun _ _ _ => rfl⟩
  have htruthful : ∀ c ∈ chunks, c.Truthful := by
    have hnumeral : (Value.text "5").toInt? = .ok (some 5) := by decide +kernel
    have hkey : Key.endIndex ≠ Key.startIndex := by decide
    simp only [chunks, List.forall_mem_cons, Chunk.Truthful]
    simp [hnumeral, hkey]
  exact finds_what_was_indexed (o := o) hfills (by decide) rfl (by decide)
    (by simp [chunks]) htruthful (by simp [chunks]) (by decide +kernel) rfl (r := r) rfl rfl rfl
    (Int.le_refl 2)

/-- A chunk that says something else of its start is found where it says. -/
theorem Retriever.chunk_is_found_where_it_says :
    let route : Routing Memory := ⟨⟨"unit", fun texts => pure (texts.map fun _ => [1])⟩, []⟩
    let x : Indexer Memory := ⟨route, Memory.backend, fun _ => .epoch⟩
    let r : Retriever Memory := ⟨route, Memory.backend⟩
    let c : Chunk := ⟨"a", "alpha", 10, 15, some [(Key.startIndex, .int 3)]⟩
    let indexed := x.index [c] ⟨"acme", none, none, none, .upsert, false⟩ (.empty "default")
    let found := (r.retrieve ⟨"alpha", "acme", 1, none, none⟩ indexed.2).1.toOption
    indexed.1.succeeded = true ∧ c.passage = ("a", "alpha", ⟨10, 15⟩) ∧
      found.map (·.sources.map (·.chunk.passage)) = some [("a", "alpha", ⟨3, 15⟩)] :=
  ⟨by decide +kernel, rfl, by decide +kernel⟩

end Retrieval
