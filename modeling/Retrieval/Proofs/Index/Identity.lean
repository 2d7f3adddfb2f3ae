import Retrieval.Proofs.Index.Superseding

/-!
# What a record says of itself

The metadata of a record names its document, its chunk, its tenant and its version, whatever the
chunk says under these names. Everything else is the chunk's own, where it says something.
-/

namespace Retrieval

namespace Record

variable (o : IndexOptions) (createdAt : String) (c : Chunk) (v : Embedding)

def described (docName : String) : Fields :=
  (defaults c docName createdAt).update (c.metadata.getD [])

theorem nodup_keys_described (docName : String) : (described createdAt c docName).keys.Nodup := by
  refine Table.nodup_keys_update ?_ _
  show [Key.text, Key.sourceUri, Key.createdAt, Key.startIndex, Key.endIndex].Nodup
  decide

theorem metadataOf_eq_identify :
    metadataOf c o createdAt = identify (described createdAt c o.docName) c o := rfl

def isIdentity (key : String) : Prop :=
  key = Key.docId ∨ key = Key.chunkId ∨ key = Key.tenantId ∨ key = Key.versionId

theorem ne_of_not_isIdentity {key : String} (h : ¬ isIdentity key) :
    Key.docId ≠ key ∧ Key.chunkId ≠ key ∧ Key.tenantId ≠ key ∧ Key.versionId ≠ key := by
  simp only [isIdentity, not_or] at h
  exact ⟨Ne.symm h.1, Ne.symm h.2.1, Ne.symm h.2.2.1, Ne.symm h.2.2.2⟩

theorem get?_ofChunk_of_other {key : String} (h : ¬ isIdentity key) :
    (ofChunk o createdAt c v).fields.get? key = (described createdAt c o.docName).get? key := by
  obtain ⟨hdoc, hchunk, htenant, hversion⟩ := ne_of_not_isIdentity h
  simp only [ofChunk, fields, Option.getD_some, metadataOf_eq_identify, identify]
  cases given o.versionId with
  | none =>
      simp only [Table.get?_erase_of_ne hversion, Table.get?_set_of_ne htenant,
        Table.get?_set_of_ne hchunk, Table.get?_set_of_ne hdoc]
  | some version =>
      simp only [Table.get?_set_of_ne hversion, Table.get?_set_of_ne htenant,
        Table.get?_set_of_ne hchunk, Table.get?_set_of_ne hdoc]

theorem get?_docId_ofChunk :
    (ofChunk o createdAt c v).fields.get? Key.docId = some (.text o.docName) := by
  have hchunk : Key.chunkId ≠ Key.docId := by decide
  have htenant : Key.tenantId ≠ Key.docId := by decide
  have hversion : Key.versionId ≠ Key.docId := by decide
  simp only [ofChunk, fields, Option.getD_some, metadataOf, identify]
  cases given o.versionId with
  | none =>
      simp only [Table.get?_erase_of_ne hversion, Table.get?_set_of_ne htenant,
        Table.get?_set_of_ne hchunk, Table.get?_set_self]
  | some version =>
      simp only [Table.get?_set_of_ne hversion, Table.get?_set_of_ne htenant,
        Table.get?_set_of_ne hchunk, Table.get?_set_self]

theorem get?_chunkId_ofChunk :
    (ofChunk o createdAt c v).fields.get? Key.chunkId = some (.text c.id) := by
  have htenant : Key.tenantId ≠ Key.chunkId := by decide
  have hversion : Key.versionId ≠ Key.chunkId := by decide
  simp only [ofChunk, fields, Option.getD_some, metadataOf, identify]
  cases given o.versionId with
  | none =>
      simp only [Table.get?_erase_of_ne hversion, Table.get?_set_of_ne htenant,
        Table.get?_set_self]
  | some version =>
      simp only [Table.get?_set_of_ne hversion, Table.get?_set_of_ne htenant,
        Table.get?_set_self]

theorem get?_versionId_ofChunk :
    (ofChunk o createdAt c v).fields.get? Key.versionId = (given o.versionId).map .text := by
  simp only [ofChunk, fields, Option.getD_some, metadataOf_eq_identify, identify]
  cases given o.versionId with
  | none =>
      refine Table.get?_erase_self ?_ Key.versionId
      exact Table.nodup_keys_set (Table.nodup_keys_set (Table.nodup_keys_set
        (nodup_keys_described createdAt c o.docName) _ _) _ _) _ _
  | some version => exact Table.get?_set_self _ _ _

end Record

/-- A record of the same document and tenant is superseded unless it has the version written. -/
theorem IndexOptions.supersedes_ofChunk {o o' : IndexOptions} (hdoc : o'.docName = o.docName)
    (htenant : o'.tenantId = o.tenantId) (createdAt : String) (c : Chunk) (v : Embedding) :
    o.supersedes (Record.ofChunk o' createdAt c v) =
      (given o.versionId).all fun version => given o'.versionId != some version := by
  have hbears (version : String) : (Record.ofChunk o' createdAt c v).bears Key.versionId version =
      (given o'.versionId == some version) := by
    rw [Record.bears, Record.get?_versionId_ofChunk]
    cases given o'.versionId with
    | none => rfl
    | some held => simp
  rw [supersedes, Record.bears_of_text (Record.get?_docId_ofChunk o' createdAt c v),
    Record.bears_of_text (Record.get?_tenantId_ofChunk o' createdAt c v), hdoc, htenant]
  simp only [hbears, beq_self_eq_true, Bool.true_and]
  rfl

end Retrieval
