import Retrieval.Proofs.Index.Indexing
import Retrieval.Proofs.Store.Kept

/-!
# What an update takes away and what it leaves

An update takes the records of its document and tenant that name another version, or none, out of
one collection, as many as a listing gives at once, and then writes its own records over what is
left. Nothing else in the store changes.
-/

namespace Retrieval

namespace Table

variable {α : Type} {p : α → Bool}

/-- The table without the first entries, up to a number of them, whose value passes a test. -/
def withoutFirst (p : α → Bool) : Nat → Table α → Table α
  | 0, t => t
  | _ + 1, [] => []
  | n + 1, e :: rest => if p e.2 then withoutFirst p n rest else e :: withoutFirst p (n + 1) rest

theorem withoutFirst_eq_filter {n : Nat} {t : Table α} (h : (t.values.filter p).length ≤ n) :
    t.withoutFirst p n = t.filter fun e => !p e.2 := by
  induction t generalizing n with
  | nil => cases n <;> rfl
  | cons e rest ih =>
      simp only [values, List.map_cons] at h ih
      cases n with
      | zero =>
          have hnone : ∀ v ∈ e.2 :: rest.map (·.2), ¬ p v = true :=
            List.filter_eq_nil_iff.1 (List.eq_nil_of_length_eq_zero (Nat.le_zero.1 h))
          symm
          apply List.filter_eq_self.2
          intro a ha
          simpa using hnone a.2 (by simpa using List.mem_map_of_mem (f := Prod.snd) ha)
      | succ n =>
          by_cases hp : p e.2 = true
          · rw [List.filter_cons, if_pos hp, List.length_cons] at h
            rw [withoutFirst, if_pos hp, ih (by omega), List.filter_cons, if_neg (by simp [hp])]
          · rw [List.filter_cons, if_neg hp] at h
            rw [withoutFirst, if_neg hp, ih h, List.filter_cons, if_pos (by simp [hp])]

theorem get?_withoutFirst {n : Nat} {t : Table α} {key : String} {value : α}
    (h : t.get? key = some value) (hp : p value = false) :
    (t.withoutFirst p n).get? key = some value := by
  induction t generalizing n with
  | nil => cases h
  | cons e rest ih =>
      obtain ⟨name, old⟩ := e
      cases n with
      | zero => exact h
      | succ n =>
          rw [get?_cons] at h
          by_cases hn : name = key
          · rw [if_pos hn] at h
            cases h
            rw [withoutFirst, if_neg (by simp [hp]), get?_cons, if_pos hn]
          · rw [if_neg hn] at h
            rw [withoutFirst]
            split
            · exact ih h
            · rw [get?_cons, if_neg hn]
              exact ih h

theorem withoutFirst_sublist (n : Nat) (t : Table α) : (t.withoutFirst p n).Sublist t := by
  induction t generalizing n with
  | nil => cases n <;> exact List.Sublist.refl []
  | cons e rest ih =>
      cases n with
      | zero => exact List.Sublist.refl _
      | succ n =>
          rw [withoutFirst]
          split
          · exact (ih n).cons e
          · exact (ih (n + 1)).cons_cons e

theorem withoutFirst_of_none {t : Table α} (h : ∀ e ∈ t, p e.2 = false) (n : Nat) :
    t.withoutFirst p n = t := by
  induction t generalizing n with
  | nil => cases n <;> rfl
  | cons e rest ih =>
      cases n with
      | zero => rfl
      | succ n =>
          have hp := h e List.mem_cons_self
          rw [withoutFirst, if_neg (by simp [hp]), ih fun d hd => h d (List.mem_cons_of_mem _ hd)]

theorem withoutFirst_of_all {t : Table α} (h : ∀ e ∈ t, p e.2 = true) (n : Nat) :
    t.withoutFirst p n = t.drop n := by
  induction t generalizing n with
  | nil => cases n <;> rfl
  | cons e rest ih =>
      cases n with
      | zero => rfl
      | succ n =>
          rw [withoutFirst, if_pos (h e List.mem_cons_self), List.drop_succ_cons,
            ih fun d hd => h d (List.mem_cons_of_mem _ hd)]

theorem get?_update_of_ne {t : Table α} {others : List (String × α)} {key : String}
    (h : ∀ e ∈ others, e.1 ≠ key) : (t.update others).get? key = t.get? key := by
  induction others generalizing t with
  | nil => rfl
  | cons e later ih =>
      simp only [update, List.foldl_cons] at ih ⊢
      rw [ih fun d hd => h d (List.mem_cons_of_mem _ hd), get?_set_of_ne (h e List.mem_cons_self)]

end Table

namespace Record

/-- A field of the record equals a text, as predicates compare them. -/
def bears (r : Record) (key text : String) : Bool :=
  (r.fields.get? key).any fun value => value.agrees (.text text)

theorem bears_of_text {r : Record} {key held : String} (h : r.fields.get? key = some (.text held))
    (text : String) : r.bears key text = (held == text) := by
  simp [bears, h]

theorem accepts_equals (r : Record) (key text : String) :
    (Filter.equals key (.text text)).accepts r.fields = r.bears key text := by
  rw [Filter.equals, Filter.accepts, Predicate.holds, bears]
  cases h : r.fields.get? key with
  | none => rfl
  | some value =>
      cases value with
      | null => simp [Value.agrees, Value.isBool, Value.isMoment, Value.same, Value.number?]
      | _ => rfl

end Record

namespace IndexOptions

/-- The record is one of the document and the tenant, but not of the version being written. -/
def supersedes (o : IndexOptions) (r : Record) : Bool :=
  r.bears Key.docId o.docName && r.bears Key.tenantId o.tenantId &&
    (given o.versionId).all fun version => !r.bears Key.versionId version

theorem accepts_staleFilter (o : IndexOptions) (r : Record) :
    o.staleFilter.accepts r.fields = o.supersedes r := by
  rw [staleFilter, supersedes]
  cases given o.versionId with
  | none => simp [Filter.accepts, Filter.acceptsAll, Record.accepts_equals]
  | some version =>
      simp [Filter.accepts, Filter.acceptsAll, Record.accepts_equals, Bool.and_assoc]

end IndexOptions

namespace Memory

variable {m : Memory} {t : Table Record} {p : Record → Bool}

/-- Taking out the first records that pass a test by their ids takes out nothing else. -/
theorem filter_first_ids (h : Keyed t) (n : Nat) :
    t.filter (fun e => e.1 ∉ ((t.values.filter p).take n).map (·.id)) = t.withoutFirst p n := by
  induction t generalizing n with
  | nil => cases n <;> rfl
  | cons e rest ih =>
      have hrest : Keyed rest := h.sublist (List.sublist_cons_self e rest)
      have hid : e.2.id = e.1 := h.2 e List.mem_cons_self
      have hnew : e.1 ∉ Table.keys rest := (List.nodup_cons.1 h.1).1
      have hne : ∀ d ∈ rest, d.1 ≠ e.1 := fun d hd he => hnew (he ▸ List.mem_map_of_mem hd)
      simp only [Table.values, List.map_cons] at ih ⊢
      cases n with
      | zero => simp [Table.withoutFirst]
      | succ n =>
          by_cases hp : p e.2 = true
          · rw [List.filter_cons_of_pos hp, List.take_succ_cons, List.map_cons,
              List.filter_cons_of_neg (by simp [hid]), Table.withoutFirst, if_pos hp, ← ih hrest n]
            refine List.filter_congr fun d hd => ?_
            simp [hid, hne d hd]
          · have hkept : e.1 ∉ (((rest.map (·.2)).filter p).take (n + 1)).map (·.id) := by
              intro hm
              obtain ⟨r, hr, he⟩ := List.mem_map.1 hm
              have hr' := (List.mem_filter.1 (List.mem_of_mem_take hr)).1
              obtain ⟨d, hd, rfl⟩ := List.mem_map.1 hr'
              exact hne d hd ((hrest.2 d hd).symm.trans he)
            rw [List.filter_cons_of_neg hp, List.filter_cons_of_pos (by simpa using hkept),
              Table.withoutFirst, if_neg hp]
            exact congrArg (e :: ·) (ih hrest (n + 1))

theorem stale_eq (m : Memory) (o : IndexOptions) :
    m.stale o = ((m.records o.collection).values.filter o.supersedes).take 10000 := by
  simp only [stale, IndexOptions.accepts_staleFilter]

theorem collection_purge_of_keyed {o : IndexOptions} (hk : Keyed (m.records o.collection))
    (name : String) :
    (m.purge o).collection name =
      if m.resolve o.collection = name then
        (m.collection name).withoutFirst o.supersedes 10000
      else m.collection name := by
  rw [collection_purge]
  split
  · next hname =>
      subst hname
      have hids : ((m.stale o).map (·.id)).Sublist (m.records o.collection).keys := by
        rw [stale_eq, ← hk.ids]
        exact ((List.take_sublist _ _).trans List.filter_sublist).map _
      have hhas : ∀ id ∈ (m.stale o).map (·.id), (m.records o.collection).has id = true :=
        fun id hid => (Table.has_iff_mem_keys _ _).2 (hids.subset hid)
      rw [← records_eq, List.filter_eq_self.2 hhas,
        removeAll_eq_filter hk.1 (hk.1.sublist hids) hhas, stale_eq]
      exact filter_first_ids hk 10000
  · rfl

theorem resolve_congr {m' : Memory} (h : m.standard = m'.standard) (c : Option String) :
    m.resolve c = m'.resolve c := by
  simp only [resolve, h]

theorem records_store_purge {o : IndexOptions} (h : Keyed (m.records o.collection))
    (new : List Record) (c : Option String) :
    ((m.purge o).store new o.collection).records c =
      if m.resolve o.collection = m.resolve c then
        ((m.records c).withoutFirst o.supersedes 10000).update (new.map fun r => (r.id, r))
      else m.records c := by
  have hstandard := standard_purge m o
  have hresolve : ((m.purge o).store new o.collection).resolve c = m.resolve c :=
    resolve_congr hstandard c
  rw [records_eq, hresolve, collection_store, resolve_congr hstandard, collection_purge_of_keyed h,
    records_eq]
  split
  · rfl
  · rfl

theorem records_indexed {o : IndexOptions} {new : List Record}
    (h : Keyed (m.records o.collection)) (hids : (new.map (·.id)).Nodup)
    (hnew : ∀ r ∈ new, r.id ∉ (m.records o.collection).keys) :
    ((if o.replaces then m.purge o else m).store new o.collection).records o.collection =
      (if o.replaces then (m.records o.collection).withoutFirst o.supersedes 10000
        else m.records o.collection) ++ new.map fun r => (r.id, r) := by
  have hkeys : Table.keys (new.map fun r => (r.id, r)) = new.map (·.id) := by
    rw [Table.keys, List.map_map]
    rfl
  have happend {t : Table Record} (hs : t.Sublist (m.records o.collection)) :
      t.update (new.map fun r => (r.id, r)) = t ++ new.map fun r => (r.id, r) := by
    refine Table.update_of_new ?_ (hkeys ▸ hids)
    intro e he hmem
    obtain ⟨r, hr, rfl⟩ := List.mem_map.1 he
    exact hnew r hr ((hs.map _).subset hmem)
  cases o.replaces with
  | false =>
      simp only [Bool.false_eq_true, if_false]
      have hresolve : (m.store new o.collection).resolve o.collection = m.resolve o.collection :=
        resolve_congr rfl o.collection
      rw [← happend (List.Sublist.refl _), records_eq, hresolve, collection_store, if_pos rfl]
      rfl
  | true =>
      simp only [if_true]
      rw [records_store_purge h, if_pos rfl, happend (Table.withoutFirst_sublist _ _)]

theorem Kept.purge (h : m.Kept) (o : IndexOptions) : (m.purge o).Kept := by
  intro name
  rw [collection_purge]
  split
  · exact (h name).sublist (removeAll_sublist _ _)
  · exact h name

end Memory

namespace Indexer

open Time

variable {ω : Type} {chunks : List Chunk} {o : IndexOptions} {vectors : List Embedding}

theorem prepare_eq_build {x : Indexer ω} {w : ω} {createdAt : String}
    (ht : Tenant.isValidId o.tenantId = true)
    (he : (x.route.select o.tenantId).embed (chunks.map (·.text)) w = (.ok vectors, w))
    (hl : vectors.length = chunks.length) (hnow : (x.now w).stored = .ok createdAt) :
    x.prepare chunks o w = (Record.build o createdAt chunks vectors, w) := by
  have htenant : (liftM (Tenant.checkId (some o.tenantId)) : Action ω String) w =
      (.ok o.tenantId, w) := by
    rw [Action.lift_apply, Tenant.checkId_of_isValidId ht]
  have hembed : x.embed chunks o w = (.ok vectors, w) := by
    rw [embed, Action.bind_ok htenant, Action.bind_ok he, if_pos hl, Action.pure_apply]
  have hstored : (liftM (x.now w).stored : Action ω String) w = (.ok createdAt, w) := by
    rw [Action.lift_apply, hnow]
  rw [prepare, Action.bind_ok hembed, Action.bind_ok (Action.read_apply x.now w),
    Action.bind_ok hstored, Action.lift_apply]

theorem index_refused {x : Indexer ω} {w w' : ω} {f : Fault} (hc : chunks ≠ [])
    (hp : x.prepare chunks o w = (.error f, w')) :
    x.index chunks o w = (⟨chunks.length, 0, some [f.text]⟩, w') := by
  rw [index_eq x hc, write_refused hp, report]

variable {x : Indexer Memory} {m : Memory}

theorem index_memory (hx : x.store = Memory.backend) (hc : chunks ≠ []) {records : List Record}
    (hp : x.prepare chunks o m = (.ok records, m)) :
    x.index chunks o m = (⟨chunks.length, records.length, none⟩,
      (if o.replaces then m.purge o else m).store records o.collection) := by
  rw [index_eq x hc, write_memory hx hp, report]

end Indexer

end Retrieval
