import Retrieval.Index.Enrich
import Retrieval.Proofs.Index.Filled
import Retrieval.Proofs.Time.TextOrder

/-!
# Who says what of a record

What a record says comes from five sources: its identity, the provenance of its document, its chunk,
its document and what can be told of any chunk. Under each name stands what the first of them says
that says anything. Of the version only the identity may speak, so no metadata makes a record that
of another tenant, document, chunk or version.
-/

namespace Retrieval

open Time

namespace Document

def title? (d : Document) : Option Value :=
  ((d.metadata.getD []).get? Key.title).filter (!·.isNull)

def provenance (d : Document) (indexedAt : String) : Fields :=
  [(Key.sourceUri, .text d.sourceUri), (Key.mimeType, .text d.mimeType),
    (Key.indexedAt, .text indexedAt)] ++ d.title?.toList.map fun title => (Key.title, title)

theorem nodup_keys_provenance (d : Document) (indexedAt : String) :
    (d.provenance indexedAt).keys.Nodup := by
  unfold provenance
  cases d.title? with
  | none =>
      show [Key.sourceUri, Key.mimeType, Key.indexedAt].Nodup
      decide
  | some title =>
      show [Key.sourceUri, Key.mimeType, Key.indexedAt, Key.title].Nodup
      decide

end Document

namespace Chunk

variable (c : Chunk) (d : Document) (indexedAt : String)

theorem enrichedFields_eq : c.enrichedFields d indexedAt =
    (inherit (c.metadata.getD []) (d.metadata.getD [])).update (d.provenance indexedAt) := by
  rw [Document.provenance, Document.title?, Table.update, List.foldl_append, enrichedFields]
  cases (d.metadata.getD []).get? Key.title with
  | none => rfl
  | some value => cases value <;> rfl

theorem get?_enrichedFields (key : String) :
    (c.enrichedFields d indexedAt).get? key = ((d.provenance indexedAt).get? key).or
      (((c.metadata.getD []).get? key).or ((d.metadata.getD []).get? key)) := by
  rw [enrichedFields_eq, Table.get?_update_of_nodup (d.nodup_keys_provenance indexedAt), inherit,
    Table.get?_setDefaults]

theorem nodup_keys_enrichedFields {c : Chunk} (h : (c.metadata.getD []).keys.Nodup) :
    (c.enrichedFields d indexedAt).keys.Nodup := by
  rw [enrichedFields_eq]
  exact Table.nodup_keys_update (Table.nodup_keys_setDefaults h _) _

theorem enrich_of_stored {now : Moment} (h : now.stored = .ok indexedAt) :
    c.enrich d now = .ok { c with metadata := some (c.enrichedFields d indexedAt) } := by
  rw [enrich, h]
  rfl

theorem enrich_eq_ok {c enriched : Chunk} {d : Document} {now : Moment}
    (h : c.enrich d now = .ok enriched) : ∃ indexedAt, now.stored = .ok indexedAt ∧
      enriched = { c with metadata := some (c.enrichedFields d indexedAt) } := by
  rw [enrich] at h
  cases hs : now.stored with
  | error f => rw [hs] at h; cases h
  | ok indexedAt =>
      rw [hs] at h
      exact ⟨indexedAt, rfl, (Except.ok.inj h).symm⟩

end Chunk

namespace Record

def identity (c : Chunk) (o : IndexOptions) : Fields :=
  [(Key.docId, .text o.docName), (Key.chunkId, .text c.id), (Key.tenantId, .text o.tenantId)] ++
    (given o.versionId).toList.map fun version => (Key.versionId, .text version)

def computed (c : Chunk) (createdAt : String) : Fields :=
  [(Key.text, .text c.text), (Key.createdAt, .text createdAt), (Key.startIndex, .int c.start),
    (Key.endIndex, .int c.stop)]

/-- The sources of what a record says, the first first. -/
def sources (c : Chunk) (d : Document) (o : IndexOptions) (indexedAt createdAt : String) :
    List Fields :=
  [identity c o, d.provenance indexedAt, c.metadata.getD [], d.metadata.getD [],
    computed c createdAt]

def firstOf (sources : List Fields) (key : String) : Option Value :=
  sources.findSome? fun fields => fields.get? key

theorem firstOf_cons (fields : Fields) (others : List Fields) (key : String) :
    firstOf (fields :: others) key = (fields.get? key).or (firstOf others key) := by
  rw [firstOf, List.findSome?_cons]
  cases fields.get? key <;> rfl

theorem get?_identity_of_other {key : String} (h : ¬ isIdentity key) (c : Chunk)
    (o : IndexOptions) : (identity c o).get? key = none := by
  obtain ⟨hdoc, hchunk, htenant, hversion⟩ := ne_of_not_isIdentity h
  rw [identity, Table.get?_append]
  cases given o.versionId <;>
    simp [Table.get?_cons, hdoc, hchunk, htenant, hversion]

theorem get?_ofChunk_of_isIdentity {key : String} (h : isIdentity key) (o : IndexOptions)
    (createdAt : String) (c : Chunk) (v : Embedding) :
    (ofChunk o createdAt c v).fields.get? key = (identity c o).get? key := by
  rcases h with rfl | rfl | rfl | rfl
  · rw [get?_docId_ofChunk]
    rfl
  · rw [get?_chunkId_ofChunk]
    rfl
  · rw [get?_tenantId_ofChunk]
    rfl
  · rw [get?_versionId_ofChunk, identity]
    cases given o.versionId <;> rfl

theorem get?_ofChunk_of_not_isIdentity {c : Chunk} (hkeys : (c.metadata.getD []).keys.Nodup)
    {key : String} (h : ¬ isIdentity key) (o : IndexOptions) (createdAt : String) (v : Embedding) :
    (ofChunk o createdAt c v).fields.get? key =
      ((c.metadata.getD []).get? key).or ((defaults c o.docName createdAt).get? key) := by
  rw [get?_ofChunk_of_other o createdAt c v h, described, Table.get?_update_of_nodup hkeys]

/-- The document's name stands for where it comes from only until its provenance is known. -/
theorem or_get?_defaults (c : Chunk) (d : Document) (docName indexedAt createdAt key : String) :
    ((d.provenance indexedAt).get? key).or ((defaults c docName createdAt).get? key) =
      ((d.provenance indexedAt).get? key).or ((computed c createdAt).get? key) := by
  by_cases h : Key.sourceUri = key
  · subst h
    rfl
  · congr 1
    simp only [defaults, computed, Table.get?_cons, if_neg h]

variable {c : Chunk} (d : Document) (o : IndexOptions) (indexedAt createdAt : String)
  (v : Embedding)

theorem get?_ofChunk_enriched (hkeys : (c.metadata.getD []).keys.Nodup) {key : String}
    (hversion : key ≠ Key.versionId) :
    (ofChunk o createdAt { c with metadata := some (c.enrichedFields d indexedAt) } v).fields.get?
      key = firstOf (sources c d o indexedAt createdAt) key := by
  rw [sources, firstOf_cons]
  by_cases h : isIdentity key
  · rw [get?_ofChunk_of_isIdentity h]
    rcases h with rfl | rfl | rfl | rfl
    · rfl
    · rfl
    · rfl
    · exact absurd rfl hversion
  · have hchunk := get?_ofChunk_of_not_isIdentity
      (c := { c with metadata := some (c.enrichedFields d indexedAt) })
      (c.nodup_keys_enrichedFields d indexedAt hkeys) h o createdAt v
    have hlast := or_get?_defaults c d o.docName indexedAt createdAt key
    rw [hchunk, get?_identity_of_other h, Option.none_or, firstOf_cons, firstOf_cons, firstOf_cons,
      firstOf_cons, firstOf, List.findSome?_nil, Option.or_none]
    show ((c.enrichedFields d indexedAt).get? key).or
      ((defaults c o.docName createdAt).get? key) = _
    rw [Chunk.get?_enrichedFields]
    cases hprovenance : (d.provenance indexedAt).get? key with
    | some value => rfl
    | none =>
        rw [hprovenance, Option.none_or, Option.none_or] at hlast
        rw [Option.none_or, Option.none_or, hlast, Option.or_assoc]

/-- The record is that of a chunk: under each name it says what the first source says, it has a
version exactly if one is asked for, and it is kept under what it says. -/
structure FollowsSources (c : Chunk) (d : Document) (o : IndexOptions)
    (indexedAt createdAt : String) (r : Record) : Prop where
  first : ∀ key, key ≠ Key.versionId →
    r.fields.get? key = firstOf (sources c d o indexedAt createdAt) key
  version : r.fields.get? Key.versionId = (given o.versionId).map .text
  unversioned : r.fields.get? Key.versionId = none ↔
    o.versionId = none ∨ o.versionId = some ""
  docId : r.docId = o.docId
  chunkId : r.chunkId = some c.id
  tenantId : r.tenantId = some o.tenantId
  versionId : r.versionId = o.versionId
  sourceUri : r.sourceUri = some d.sourceUri

/-- Two records belong to the same tenant, document, chunk and version, and say so. -/
structure SameIdentity (r r' : Record) : Prop where
  id : r.id = r'.id
  docId : r.docId = r'.docId
  chunkId : r.chunkId = r'.chunkId
  tenantId : r.tenantId = r'.tenantId
  versionId : r.versionId = r'.versionId
  told : ∀ key, isIdentity key → r.fields.get? key = r'.fields.get? key

theorem followsSources_ofChunk (hkeys : (c.metadata.getD []).keys.Nodup) :
    FollowsSources c d o indexedAt createdAt
      (ofChunk o createdAt { c with metadata := some (c.enrichedFields d indexedAt) } v) where
  first key hkey := get?_ofChunk_enriched d o indexedAt createdAt v hkeys hkey
  version := get?_versionId_ofChunk o createdAt _ v
  unversioned := by
    rw [get?_versionId_ofChunk, Option.map_eq_none_iff, given_eq_none_iff]
  docId := rfl
  chunkId := rfl
  tenantId := rfl
  versionId := rfl
  sourceUri := by
    have hversion : Key.sourceUri ≠ Key.versionId := by decide
    have hother : ¬ isIdentity Key.sourceUri := by
      unfold isIdentity
      decide
    refine Fields.display?_of_text ((get?_ofChunk_enriched d o indexedAt createdAt v hkeys
      hversion).trans ?_)
    rw [sources, firstOf_cons, get?_identity_of_other hother, firstOf_cons]
    rfl

theorem sameIdentity_ofChunk {c c' : Chunk} (hid : c'.id = c.id) (o : IndexOptions)
    (createdAt createdAt' : String) (v v' : Embedding) :
    SameIdentity (ofChunk o createdAt' c' v') (ofChunk o createdAt c v) where
  id := by
    show idOf c' o = idOf c o
    rw [idOf, idOf, hid]
  docId := rfl
  chunkId := congrArg some hid
  tenantId := rfl
  versionId := rfl
  told key hkey := by
    rw [get?_ofChunk_of_isIdentity hkey, get?_ofChunk_of_isIdentity hkey, identity, identity, hid]

/-- Wherever the clock can be written down, a chunk of a document becomes a record that says under
each name what the first of its sources says. Whatever else chunk and document say, and whenever
they are indexed, the record is that of the same tenant, document, chunk and version. -/
theorem follows_sources {c : Chunk} (hkeys : (c.metadata.getD []).keys.Nodup) (d : Document)
    (o : IndexOptions) (now later : Moment) :
    (Moment.inCalendar now.instant = true → Moment.inCalendar later.instant = true →
      ∃ enriched createdAt, c.enrich d now = .ok enriched ∧ later.stored = .ok createdAt) ∧
    ∀ enriched createdAt, c.enrich d now = .ok enriched → later.stored = .ok createdAt →
      ∃ indexedAt, now.stored = .ok indexedAt ∧
        ∀ (chunks : List Chunk) (vectors : List Embedding) (i : Nat),
          vectors.length = chunks.length → chunks[i]? = some enriched →
          ∃ r, (ofChunks o createdAt chunks vectors)[i]? = some r ∧
            FollowsSources c d o indexedAt createdAt r ∧
            ∀ c' d' now' enriched' createdAt' v', c'.id = c.id →
              Chunk.enrich c' d' now' = .ok enriched' →
              SameIdentity (ofChunk o createdAt' enriched' v') r := by
  refine ⟨fun hnow hlater => ?_, fun enriched createdAt henrich _ => ?_⟩
  · exact ⟨_, _, c.enrich_of_stored d _ (Moment.stored_eq hnow), Moment.stored_eq hlater⟩
  · obtain ⟨indexedAt, hnow, rfl⟩ := Chunk.enrich_eq_ok henrich
    refine ⟨indexedAt, hnow, fun chunks vectors i hlength hchunk => ?_⟩
    obtain ⟨hi, hget⟩ := List.getElem?_eq_some_iff.1 hchunk
    have hlt : i < vectors.length := hlength ▸ hi
    have hvector : vectors[i]? = some vectors[i] := List.getElem?_eq_getElem hlt
    refine ⟨_, ?_, followsSources_ofChunk d o indexedAt createdAt vectors[i] hkeys,
      fun c' d' now' enriched' createdAt' v' hid henrich' => ?_⟩
    · rw [ofChunks, List.getElem?_zipWith, hchunk, hvector]
    · have hsame : enriched'.id = c.id := by
        obtain ⟨indexedAt', -, rfl⟩ := Chunk.enrich_eq_ok henrich'
        exact hid
      exact sameIdentity_ofChunk (c := { c with metadata := some (c.enrichedFields d indexedAt) })
        hsame o createdAt createdAt' _ v'

/-- A chunk and its document both name another tenant, and the document another source and a title;
the chunk has a version, which nobody asked for. -/
theorem follows_sources_of_strangers :
    let c : Chunk := ⟨"a", "alpha", 0, 5, some [(Key.tenantId, .text "globex"),
      (Key.versionId, .text "v9"), (Key.title, .text "Alpha"), (Key.startIndex, .int 3)]⟩
    let d : Document := ⟨"docs/guide.md", [], "text/markdown", some [(Key.title, .text "Guide"),
      (Key.sourceUri, .text "elsewhere"), (Key.tenantId, .text "initech"), ("lang", .text "en")]⟩
    let o : IndexOptions := ⟨"acme", some "guide", some "", none, .upsert, false⟩
    let now : Moment := .ofDateClock ⟨2024, 3, 14⟩ ⟨9, 30, 0, 0⟩ (some 0)
    (c.metadata.getD []).keys.Nodup ∧ ∃ indexedAt createdAt enriched r,
      c.enrich d now = .ok enriched ∧ ofChunks o createdAt [enriched] [[1]] = [r] ∧
      FollowsSources c d o indexedAt createdAt r ∧
      r.fields.get? Key.tenantId = some (.text "acme") ∧ r.fields.get? Key.versionId = none ∧
      r.fields.get? Key.title = some (.text "Guide") ∧ r.fields.get? "lang" = some (.text "en") ∧
      r.fields.get? Key.startIndex = some (.int 3) := by
  intro c d o now
  have hkeys : (c.metadata.getD []).keys.Nodup := by decide
  have hnow : Moment.inCalendar now.instant = true := by decide
  obtain ⟨hreturns, hrecords⟩ := follows_sources hkeys d o now now
  obtain ⟨enriched, createdAt, henrich, hstored⟩ := hreturns hnow hnow
  obtain ⟨indexedAt, -, hall⟩ := hrecords enriched createdAt henrich hstored
  obtain ⟨r, hr, hfollows, -⟩ := hall [enriched] [[1]] 0 rfl rfl
  have hrecord : ofChunks o createdAt [enriched] [[1]] = [r] := by
    obtain rfl := Option.some.inj hr
    rfl
  refine ⟨hkeys, indexedAt, createdAt, enriched, r, henrich, hrecord, hfollows, ?_, ?_, ?_, ?_, ?_⟩
  · exact hfollows.first Key.tenantId (by decide)
  · exact hfollows.version
  · exact hfollows.first Key.title (by decide)
  · exact hfollows.first "lang" (by decide)
  · exact hfollows.first Key.startIndex (by decide)

end Record

end Retrieval
