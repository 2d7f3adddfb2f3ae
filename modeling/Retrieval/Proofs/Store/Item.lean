import Retrieval.Proofs.Effect.Traversing
import Retrieval.Proofs.Filter.Pushdown
import Retrieval.Proofs.Table.Keyed
import Retrieval.Proofs.Value.Stored
import Retrieval.Store.Client

/-!
# The item that is kept for a record

An item has the metadata of its record with moments as text, and the identity of the record under
the names that were free. A predicate cannot tell the two apart unless it looks for such a name or,
where there is a moment, for a text or a number.
-/

namespace Retrieval

namespace Value

/-- A client can hold the value: a scalar, and if a moment one that universal time reaches. -/
def isStorable : Value → Bool
  | .moment m => m.toUniversal?.isSome
  | v => v.isScalar

def held : Value → Value
  | .moment m =>
      match m.stored with
      | .ok s => .text s
      | .error _ => .moment m
  | v => v

theorem stored_of_isStorable {m : Time.Moment} (h : (Value.moment m).isStorable = true) :
    ∃ s, m.stored = .ok s := by
  obtain ⟨u, hu⟩ := Option.isSome_iff_exists.1 h
  exact ⟨u.render, by rw [Time.Moment.stored, hu]⟩

theorem isScalar_held {v : Value} (h : v.isStorable = true) : v.held.isScalar = true := by
  cases v with
  | moment m =>
      obtain ⟨s, hs⟩ := stored_of_isStorable h
      simp only [held, hs]
      rfl
  | null | bool _ | int _ | real _ | text _ | bytes _ | list _ | map _ => exact h

theorem ne_null_of_isStorable {v : Value} (h : v.isStorable = true) : v ≠ .null :=
  fun hn => by simp [hn, isStorable, isScalar] at h

theorem held_ne_null {v : Value} (h : v.isStorable = true) : v.held ≠ .null :=
  fun hn => by simpa [hn, isScalar] using isScalar_held h

end Value

namespace Fields

def held (fields : Fields) : Fields := fields.map fun e => (e.1, e.2.held)

theorem get?_held (fields : Fields) (key : String) :
    fields.held.get? key = (fields.get? key).map Value.held := by
  induction fields with
  | nil => rfl
  | cons e rest ih =>
      obtain ⟨name, value⟩ := e
      show Table.get? ((name, value.held) :: held rest) key = _
      rw [Table.get?_cons, Table.get?_cons, ih]
      split <;> rfl

end Fields

namespace Record

def names (r : Record) : Fields :=
  (Item.identity r).filterMap fun e => e.2.map fun text => (e.1, .text text)

theorem metadataOf_eq (r : Record) :
    Item.metadataOf r = r.names.foldl (fun acc e => acc.setDefault e.1 e.2) r.fields := by
  rw [names, List.foldl_filterMap, Item.metadataOf]
  congr 1
  funext fields e
  cases e.2 <;> rfl

def isStorable (r : Record) : Bool := r.fields.all fun e => e.2.isStorable

def item (r : Record) : Item := ⟨r.id, r.vector, r.text, (Item.metadataOf r).held⟩

theorem isStorable_of_mem_metadataOf {r : Record} (h : r.isStorable = true) {e : String × Value}
    (he : e ∈ Item.metadataOf r) : e.2.isStorable = true := by
  rw [metadataOf_eq] at he
  rcases Table.mem_of_mem_setDefaults he with he | he
  · exact List.all_eq_true.1 h e he
  · obtain ⟨entry, _, hentry⟩ := List.mem_filterMap.1 he
    obtain ⟨text, _, rfl⟩ := Option.map_eq_some_iff.1 hentry
    rfl

theorem scalar_item {r : Record} (h : r.isStorable = true) :
    ∀ e ∈ r.item.metadata, e.2.isScalar = true := by
  intro e he
  obtain ⟨entry, hentry, rfl⟩ := List.mem_map.1 he
  exact Value.isScalar_held (isStorable_of_mem_metadataOf h hentry)

end Record

namespace Item

theorem scalar_of_isStorable {v : Value} (h : v.isStorable = true) :
    scalar v = .ok (some v.held) := by
  cases v with
  | moment m =>
      obtain ⟨s, hs⟩ := Value.stored_of_isStorable h
      simp only [scalar, Value.held, hs]
      rfl
  | bool _ | int _ | real _ | text _ => rfl
  | null | bytes _ | list _ | map _ => cases h

theorem scalars_of_isStorable {fields : Fields} (h : ∀ e ∈ fields, e.2.isStorable = true) :
    scalars fields = .ok fields.held := by
  induction fields with
  | nil => rfl
  | cons e rest ih =>
      obtain ⟨name, value⟩ := e
      obtain ⟨hvalue, hrest⟩ := List.forall_mem_cons.1 h
      rw [scalars, scalar_of_isStorable hvalue, ih hrest]
      rfl

theorem ofRecord_of_isStorable {r : Record} (h : r.isStorable = true) :
    ofRecord r = .ok r.item := by
  rw [ofRecord, scalars_of_isStorable fun _ he => Record.isStorable_of_mem_metadataOf h he]
  rfl

theorem mapM_ofRecord {records : List Record} (h : ∀ r ∈ records, r.isStorable = true) :
    (records.mapM ofRecord : Outcome (List Item)) = .ok (records.map Record.item) :=
  Outcome.mapM_of_ok fun r hr => ofRecord_of_isStorable (h r hr)

end Item

namespace Predicate

/-- What a client changes of a record's fields does not bear on the predicate: a name that is
missing is no name of the identity, and a moment belongs to no region and is compared with neither
texts nor numbers, nor with what has no text to be read as a moment. -/
def isNeutral (p : Predicate) (r : Record) : Bool :=
  match r.fields.get? p.field with
  | none => (r.names.get? p.field).isNone
  | some (.moment m) => m.region?.isNone && p.op != .contains && p.value.text?.isNone &&
      !Pushdown.isNumber p.value && p.value.isDatable
  | some _ => true

theorem check_item {p : Predicate} {r : Record} (hr : r.isStorable = true)
    (hp : p.isNeutral r = true) : p.check r.item.metadata = p.check r.fields := by
  have hget : r.item.metadata.get? p.field =
      ((r.fields.get? p.field).or (r.names.get? p.field)).map Value.held := by
    rw [Record.item, Fields.get?_held, Record.metadataOf_eq, Table.get?_setDefaults]
  unfold isNeutral at hp
  cases hf : r.fields.get? p.field with
  | none =>
      rw [hf] at hp hget
      rw [Option.isNone_iff_eq_none.1 hp] at hget
      rw [check, check, holds, holds, isLegible, isLegible, hget, hf]
      rfl
  | some v =>
      have hv : v.isStorable = true := List.all_eq_true.1 hr _ (Table.mem_of_get? hf)
      rw [hf] at hp hget
      have hheld : p.testsLegibly v.held = p.testsLegibly v ∧ p.test v.held = p.test v := by
        -- Only a moment is held in another form than its own.
        cases v with
        | moment m =>
            obtain ⟨s, hs⟩ := Value.stored_of_isStorable hv
            simp only [Bool.and_eq_true, bne_iff_ne, Bool.not_eq_true'] at hp
            obtain ⟨⟨⟨⟨hregion, hop⟩, htext⟩, hnumber⟩, hdatable⟩ := hp
            have hheld : (Value.moment m).held = .text s := by simp only [Value.held, hs]
            rw [hheld, test_stored hs (Option.isNone_iff_eq_none.1 hregion) hop
              (Option.isNone_iff_eq_none.1 htext) hnumber]
            exact ⟨testsLegibly_of_isDatable hop rfl rfl hdatable, rfl⟩
        | null | bool _ | int _ | real _ | text _ | bytes _ | list _ | map _ => exact ⟨rfl, rfl⟩
      rw [check, check, isLegible_of_get? (Value.held_ne_null hv) hget,
        holds_of_get? (Value.held_ne_null hv) hget,
        isLegible_of_get? (Value.ne_null_of_isStorable hv) hf,
        holds_of_get? (Value.ne_null_of_isStorable hv) hf, hheld.1, hheld.2]

end Predicate

namespace Filter

mutual

def predicates : Filter → List Predicate
  | .pred p => [p]
  | .all filters => predicatesOf filters
  | .any filters => predicatesOf filters
  | .not filter => predicates filter
  | .absent => []
  | .foreign _ => []

def predicatesOf : List Filter → List Predicate
  | [] => []
  | filter :: rest => predicates filter ++ predicatesOf rest

end

mutual

theorem evaluate_congr {fields others : Fields} {f : Filter}
    (h : ∀ p ∈ f.predicates, p.check fields = p.check others) :
    f.evaluate fields = f.evaluate others := by
  cases f with
  | pred p =>
      rw [evaluate, evaluate]
      exact h p (by rw [predicates]; exact List.mem_singleton_self p)
  | all filters =>
      rw [evaluate, evaluate]
      exact (evaluateGroup_congr (by rwa [predicates] at h)).1
  | any filters =>
      rw [evaluate, evaluate]
      exact (evaluateGroup_congr (by rwa [predicates] at h)).2
  | not f =>
      rw [evaluate, evaluate, evaluate_congr (by rwa [predicates] at h)]
  | absent => rw [evaluate, evaluate]
  | foreign v => rw [evaluate, evaluate]

theorem evaluateGroup_congr {fields others : Fields} {filters : List Filter}
    (h : ∀ p ∈ predicatesOf filters, p.check fields = p.check others) :
    evaluateAll filters fields = evaluateAll filters others ∧
      evaluateAny filters fields = evaluateAny filters others := by
  cases filters with
  | nil => exact ⟨by rw [evaluateAll, evaluateAll], by rw [evaluateAny, evaluateAny]⟩
  | cons f rest =>
      rw [predicatesOf, List.forall_mem_append] at h
      obtain ⟨hall, hany⟩ := evaluateGroup_congr h.2
      rw [evaluateAll, evaluateAll, evaluateAny, evaluateAny, evaluate_congr h.1, hall, hany]
      exact ⟨rfl, rfl⟩

end

theorem passes_item {f : Filter} {r : Record} (hr : r.isStorable = true)
    (hf : ∀ p ∈ f.predicates, p.isNeutral r = true) :
    f.passes r.item.metadata = f.passes r.fields := by
  unfold passes
  rw [evaluate_congr fun p hp => Predicate.check_item hr (hf p hp)]

end Filter

end Retrieval
