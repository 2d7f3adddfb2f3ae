import Mathlib.Logic.Basic
import Retrieval.Store.Client

/-!
# Reading a faithful answer

An answer that tells some items column by column is read as just these items, as long as their
metadata holds scalars only. An item whose text or identity is told by an illegible number cannot be
read.
-/

namespace Retrieval

open Schema

namespace Item

def row (i : Item) : Row :=
  ⟨.text i.id, some (.text i.document), some (.map i.metadata), .null,
    some (.list (i.vector.map .real))⟩

/-- An item as a record; a text that was not kept is looked for in the metadata. -/
def record (i : Item) : Record where
  id := i.id
  vector := i.vector
  text := if i.document.isEmpty then ((i.metadata.get? Key.text).map Value.display).getD ""
    else i.document
  metadata := some i.metadata
  sourceUri := i.metadata.display? Key.sourceUri
  docId := i.metadata.display? Key.docId
  chunkId := i.metadata.display? Key.chunkId
  tenantId := i.metadata.display? Key.tenantId
  versionId := i.metadata.display? Key.versionId

/-- What the metadata of the item is read for has a text. -/
def isLegible (i : Item) : Bool :=
  (!i.document.isEmpty || i.metadata.isLegible Key.text) &&
    [Key.sourceUri, Key.docId, Key.chunkId, Key.tenantId, Key.versionId].all i.metadata.isLegible

end Item

namespace Schema

theorem list_real (position : Nat) (vector : List Float) :
    Checked.list Reader.real position (vector.map .real) = .good vector := by
  induction vector generalizing position with
  | nil => rfl
  | cons x rest ih =>
      rw [List.map_cons, Checked.list, ih]
      rfl

theorem scalar_of_isScalar {v : Value} (h : v.isScalar = true) : Reader.scalar v = .good v := by
  cases v <;> first | rfl | cases h

theorem entries_scalar {fields : Fields} (h : ∀ e ∈ fields, e.2.isScalar = true) :
    Reader.entries Reader.scalar fields = .good fields := by
  induction fields with
  | nil => rfl
  | cons e rest ih =>
      obtain ⟨name, value⟩ := e
      obtain ⟨hvalue, hrest⟩ := List.forall_mem_cons.1 h
      rw [Reader.entries, scalar_of_isScalar hvalue, ih hrest]
      rfl

end Schema

namespace Record

theorem reference_ofOption {name : String} {fields : Fields} {o : Option String}
    (h : fields.get? name = some (.ofOption .text o)) : reference name fields = .good o := by
  rw [reference, optionalField, h]
  cases o <;> rfl

theorem read_toFields {r : Record} (h : ∀ e ∈ r.fields, e.2.isScalar = true) :
    read r.toFields = .good r := by
  have hid : required "id" Reader.text r.toFields = .good r.id := rfl
  have hvector : required "vector" (Reader.list Reader.real) r.toFields = .good r.vector := by
    show (Checked.list Reader.real 0 (r.vector.map .real)).under _ = _
    rw [list_real]
    rfl
  have htext : required "text" Reader.text r.toFields = .good r.text := rfl
  have hmetadata : optionalField "metadata" none (Reader.optional Reader.metadata) r.toFields =
      .good r.metadata := by
    show (Reader.optional Reader.metadata (.ofOption .map r.metadata)).under _ = _
    cases hm : r.metadata with
    | none => rfl
    | some fields =>
        have hfields : ∀ e ∈ fields, e.2.isScalar = true := by simpa [Record.fields, hm] using h
        show ((Reader.entries Reader.scalar fields).map some).under _ = _
        rw [entries_scalar hfields]
        rfl
  have hsource : reference "source_uri" r.toFields = .good r.sourceUri := reference_ofOption rfl
  have hdoc : reference "doc_id" r.toFields = .good r.docId := reference_ofOption rfl
  have hchunk : reference "chunk_id" r.toFields = .good r.chunkId := reference_ofOption rfl
  have htenant : reference "tenant_id" r.toFields = .good r.tenantId := reference_ofOption rfl
  have hversion : reference "version_id" r.toFields = .good r.versionId := reference_ofOption rfl
  rw [read, hid, hvector, htext, hmetadata, hsource, hdoc, hchunk, htenant, hversion]
  rfl

end Record

namespace Row

theorem vectorOf_real (vector : List Float) :
    vectorOf (.list (vector.map .real)) = .ok vector := by
  show (vector.map Value.real).mapM Value.toReal = .ok vector
  induction vector with
  | nil => rfl
  | cons x rest ih =>
      rw [List.map_cons, List.mapM_cons, ih]
      rfl

theorem text_eq (document : String) (metadata : Fields) :
    text (.text document) metadata =
      if !document.isEmpty || metadata.isLegible Key.text then
        .ok (.text (if document.isEmpty then ((metadata.get? Key.text).map Value.display).getD ""
          else document))
      else .error Value.tooLong := by
  by_cases h : document.isEmpty = true
  · unfold text Fields.isLegible
    cases metadata.get? Key.text with
    | none => simp [Value.isTruthy, h]
    | some value =>
        rcases value.toText_cases with ⟨hvalue, hlegible⟩ | ⟨hvalue, hlegible⟩
        · simp [Value.isTruthy, h, hvalue, hlegible, Except.map]
        · simp [Value.isTruthy, h, hvalue, hlegible, Except.map]
  · simp [text, Value.isTruthy, h]

/-- The line that tells an item is read as that item, where what it is read for has a text. -/
theorem record_row {i : Item} (h : ∀ e ∈ i.metadata, e.2.isScalar = true) :
    i.row.record = if i.isLegible then .ok i.record else .error Value.tooLong := by
  have hread : Record.read i.record.toFields = .good i.record := Record.read_toFields h
  have htold (key : String) : (i.metadata.text? key).map (Value.ofOption .text) =
      if i.metadata.isLegible key then .ok (Value.ofOption .text (i.metadata.display? key))
      else .error Value.tooLong := by
    unfold Fields.text?
    split <;> rfl
  show (vectorOf (.list (i.vector.map .real))).bind _ = _
  rw [vectorOf_real, Outcome.bind_ok]
  show (text (.text i.document) i.metadata).bind _ = _
  rw [text_eq, Item.isLegible]
  -- What is read one after the other has a text if each of them has one.
  simp only [Column.fields, htold, bind, Outcome.bind_ite, List.all_cons, List.all_nil,
    Bool.and_true, Bool.and_eq_true, ite_and]
  repeat' refine if_congr Iff.rfl ?_ rfl
  exact congrArg (Checked.toOutcome "VectorRecord") hread

end Row

namespace Page

/-- The answer tells the items in this order, in the columns that were asked for. -/
structure Tells (columns : List Column) (answer : Value) (items : List Item) : Prop where
  ids : Column.find answer "ids" = .ok (.list (items.map fun i => .text i.id))
  documents : .documents ∈ columns →
    Column.find answer "documents" = .ok (.list (items.map fun i => .text i.document))
  metadatas : .metadatas ∈ columns →
    Column.find answer "metadatas" = .ok (.list (items.map fun i => .map i.metadata))
  embeddings : .embeddings ∈ columns → Column.find answer "embeddings" =
    .ok (.list (items.map fun i => .list (i.vector.map .real)))

def telling (items : List Item) : Value :=
  .map [("ids", .list (items.map fun i => .text i.id)),
    ("documents", .list (items.map fun i => .text i.document)),
    ("metadatas", .list (items.map fun i => .map i.metadata)),
    ("embeddings", .list (items.map fun i => .list (i.vector.map .real)))]

theorem tells_telling (columns : List Column) (items : List Item) :
    Tells columns (telling items) items :=
  ⟨rfl, fun _ => rfl, fun _ => rfl, fun _ => rfl⟩

theorem filled_map {α : Type} (fallback : Value) (f : α → Value) (xs : List α) :
    Column.filled xs.length fallback (.list (xs.map f)) = xs.map f := by
  cases xs <;> rfl

theorem rows_map (items : List Item) (distances : List Value) (distance : Item → Value)
    (h : ∀ n i, items[n]? = some i → distances.getD n .null = distance i) :
    (Page.mk (items.map fun i => .text i.id) (items.map fun i => .text i.document)
      (items.map fun i => .map i.metadata) distances
      (some (items.map fun i => .list (i.vector.map .real)))).rows =
        items.map fun i => { i.row with distance := distance i } := by
  unfold rows
  apply List.ext_getElem?
  intro n
  simp only [List.getElem?_map, List.getElem?_zipIdx]
  cases hn : items[n]? with
  | none => rfl
  | some i =>
      have hdistance := h n i hn
      rw [List.getD_eq_getElem?_getD] at hdistance
      simp [hn, hdistance, Item.row]

theorem filled_ids (items : List Item) :
    Column.filled 0 .null (.list (items.map fun i => .text i.id)) =
      items.map fun i => .text i.id := by
  cases items <;> rfl

theorem Tells.listed {answer : Value} {items : List Item}
    (h : Tells [.documents, .metadatas, .embeddings] answer items) :
    listed answer = .ok ⟨items.map Item.row, none⟩ := by
  have hdocuments := filled_map (.text "") (fun i : Item => .text i.document) items
  have hmetadatas := filled_map (.map []) (fun i : Item => .map i.metadata) items
  have hpage : ofListing answer = .ok ⟨items.map fun i => .text i.id,
      items.map fun i => .text i.document, items.map fun i => .map i.metadata, [],
      some (items.map fun i => .list (i.vector.map .real))⟩ := by
    simp only [ofListing, Column.name, h.ids, h.documents (by decide), h.metadatas (by decide),
      h.embeddings (by decide)]
    dsimp only [bind, Except.bind, Column.items]
    rw [filled_ids, List.length_map, hdocuments, hmetadatas]
    rfl
  have hrows := rows_map items [] (fun _ => .null) fun _ _ _ => rfl
  rw [Page.listed, hpage]
  exact congrArg (fun rows => Except.ok (⟨rows, none⟩ : Lines)) hrows

def mark (i : Item) : Row := ⟨.text i.id, none, some (.map i.metadata), .null, some (.list [])⟩

theorem Tells.marked {answer : Value} {items : List Item} (h : Tells [.metadatas] answer items) :
    marked answer = .ok ⟨items.map mark, none⟩ := by
  have hmetadatas := filled_map (.map []) (fun i : Item => .map i.metadata) items
  have hrows : (Page.mk (items.map fun i => .text i.id) [] (items.map fun i => .map i.metadata) []
      none).rows = items.map mark := by
    unfold rows
    apply List.ext_getElem?
    intro n
    simp only [List.getElem?_map, List.getElem?_zipIdx]
    cases hn : items[n]? with
    | none => rfl
    | some i => simp [hn, mark]
  have hfault : lengthFault? items.length [items.length] = none := by
    simp [lengthFault?]
  unfold Page.marked
  rw [h.ids, Column.name, h.metadatas (by decide)]
  dsimp only [bind, Except.bind, pure, Except.pure]
  rw [filled_ids, List.length_map, hmetadatas, hrows, List.length_map, hfault,
    List.take_of_length_le (Nat.le_of_eq (List.length_map _))]

end Page

namespace Item

def rowAt (distance : Float) (i : Item) : Row := { i.row with distance := .real distance }

end Item

theorem Row.record_rowAt {distance : Float} {i : Item}
    (h : ∀ e ∈ i.metadata, e.2.isScalar = true) : (i.rowAt distance).record =
      if i.isLegible then .ok i.record else .error Value.tooLong :=
  record_row h

namespace Page

structure TellsNearest (answer : Value) (distance : Item → Float) (items : List Item) : Prop where
  ids : Column.find answer "ids" = .ok (.list [.list (items.map fun i => .text i.id)])
  documents : Column.find answer "documents" =
    .ok (.list [.list (items.map fun i => .text i.document)])
  metadatas : Column.find answer "metadatas" =
    .ok (.list [.list (items.map fun i => .map i.metadata)])
  distances : Column.find answer "distances" =
    .ok (.list [.list (items.map fun i => .real (distance i))])
  embeddings : Column.find answer "embeddings" =
    .ok (.list [.list (items.map fun i => .list (i.vector.map .real))])

theorem TellsNearest.nearest {answer : Value} {distance : Item → Float} {items : List Item}
    (h : TellsNearest answer distance items) :
    nearest answer = .ok ⟨items.map fun i => i.rowAt (distance i), none⟩ := by
  have hrows := rows_map items (items.map fun i => .real (distance i))
    (fun i => .real (distance i)) fun n i hn => by simp [hn]
  have hfault : lengthFault? items.length [items.length, items.length, items.length] = none := by
    simp [lengthFault?]
  have hleast : [items.length, items.length, items.length].foldl min items.length =
      items.length := by simp
  unfold Page.nearest
  rw [h.ids, Column.name, h.documents, Column.name, h.metadatas, Column.name, h.distances,
    Column.name, h.embeddings]
  dsimp only [bind, Except.bind, pure, Except.pure, Column.first, Column.firstVectors, Column.items]
  rw [filled_ids, List.length_map]
  cases items with
  | nil => rfl
  | cons i rest =>
      have hsome : ¬ (i :: rest).length = 0 := Nat.succ_ne_zero _
      rw [if_neg hsome]
      simp only [Except.map, List.length_map]
      rw [hrows, hfault, hleast, List.take_of_length_le (Nat.le_of_eq (List.length_map _))]
      rfl

end Page

end Retrieval
