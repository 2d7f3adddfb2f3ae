import Retrieval.Proofs.Store.Kept

/-!
# Stores that keep their contract

A store of any make is seen through the records its collections hold. It keeps its contract if a
query and an operation that fails change nothing of what is seen, if a listing gives records that
the filter accepts, none of them twice, and if a removal by ids takes away just the records with
these ids. The store in memory keeps it, whether or not its writing is made to fail.
-/

namespace Retrieval

def withoutIds (contents : String → List Record) (name : String) (ids : List String)
    (other : String) : List Record :=
  if other = name then (contents other).filter fun r => r.id ∉ ids else contents other

namespace VectorStore

variable {ω α β : Type}

structure View (s : VectorStore ω) where
  /-- The states that the store can be in. -/
  kept : ω → Prop
  contents : ω → String → List Record
  /-- The collection that a caller means. -/
  place : Option String → String
  distinct {w : ω} (h : kept w) (name : String) : ((contents w name).map (·.id)).Nodup
  query {w : ω} (h : kept w) (q : Query) :
    kept (s.query q w).2 ∧ contents (s.query q w).2 = contents w
  listed {w w' : ω} {f : Filter} {tenant : String} {c : Option String} {found : List Match}
    (h : kept w) (hf : f.isWellFormed = true)
    (hq : s.query (.listing f tenant c) w = (.ok found, w')) :
    (found.map (·.record.id)).Nodup ∧
      ∀ m ∈ found, m.record ∈ contents w (place c) ∧ f.accepts m.record.fields = true
  delete_ok {w w' : ω} {ids : List String} {c : Option String} {n : Nat} (h : kept w)
    (hids : ids.Nodup) (hne : ids ≠ []) (hd : s.delete ids c none w = (.ok n, w')) :
    kept w' ∧ contents w' = withoutIds (contents w) (place c) ids
  delete_error {w w' : ω} {ids : List String} {c : Option String} {f : Fault} (h : kept w)
    (hids : ids.Nodup) (hne : ids ≠ []) (hd : s.delete ids c none w = (.error f, w')) :
    kept w' ∧ contents w' = contents w
  upsert_error {w w' : ω} {records : List Record} {c : Option String} {f : Fault} (h : kept w)
    (hu : s.upsert records c w = (.error f, w')) : contents w' = contents w

namespace View

variable {s : VectorStore ω} (v : s.View)

def Spares (a : Action ω α) : Prop :=
  ∀ w, v.kept w → v.kept (a w).2 ∧ v.contents (a w).2 = v.contents w

variable {v}

theorem spares_pure (x : α) : v.Spares (pure x : Action ω α) := fun _ h => ⟨h, rfl⟩

theorem spares_throw (f : Fault) : v.Spares (throw f : Action ω α) := fun _ h => ⟨h, rfl⟩

theorem spares_lift (o : Outcome α) : v.Spares (liftM o : Action ω α) := fun _ h => ⟨h, rfl⟩

theorem spares_read (f : ω → α) : v.Spares (Action.read f) := fun _ h => ⟨h, rfl⟩

theorem Spares.bind {a : Action ω α} {k : α → Action ω β} (ha : v.Spares a)
    (hk : ∀ x, v.Spares (k x)) : v.Spares (a >>= k) := by
  intro w h
  obtain ⟨hkept, hsame⟩ := ha w h
  rw [Action.bind_apply]
  rcases hw : a w with ⟨_ | x, w'⟩ <;> rw [hw] at hkept hsame
  · exact ⟨hkept, hsame⟩
  · obtain ⟨hkept', hsame'⟩ := hk x w' hkept
    exact ⟨hkept', hsame'.trans hsame⟩

end View

end VectorStore

namespace Memory

variable {m : Memory} {standard : String}

theorem resolve_of_standard (h : m.standard = standard) (c : Option String) :
    m.resolve c = (empty standard).resolve c := by
  simp only [resolve, empty, h]

/-- Any store in memory that removes and answers like the usual one and fails to write, if at all,
without writing. -/
def view {s : VectorStore Memory} (standard : String) (hq : s.query = backend.query)
    (hd : s.delete = backend.delete)
    (hu : ∀ records c m f m', s.upsert records c m = (.error f, m') → m' = m) : s.View where
  kept m := m.Kept ∧ m.standard = standard
  contents m name := (m.collection name).values
  place := (empty standard).resolve
  distinct h name := by
    rw [(h.1 name).ids]
    exact (h.1 name).1
  query h q := by
    rw [hq]
    exact ⟨h, rfl⟩
  listed {w w' f tenant c found} h hf hl := by
    rw [hq] at hl
    have hfound := eq_of_search_listing hf (Prod.mk.inj hl).1
    rw [records_eq, resolve_of_standard h.2] at hfound
    subst hfound
    have hk := h.1 ((empty standard).resolve c)
    refine ⟨?_, fun x hx => ?_⟩
    · rw [List.map_map]
      refine (hk.ids ▸ hk.1 : ((w.collection _).values.map (·.id)).Nodup).sublist ?_
      exact ((List.take_sublist _ _).trans List.filter_sublist).map _
    · obtain ⟨r, hr, rfl⟩ := List.mem_map.1 hx
      obtain ⟨hmem, hpasses⟩ := List.mem_filter.1 (List.mem_of_mem_take hr)
      exact ⟨hmem, Filter.accepts_of_passes hf hpasses⟩
  delete_ok {w w' ids c n} h hids hne hr := by
    rw [hd] at hr
    have hw : w' = (w.remove ids c none).2 := (congrArg Prod.snd hr).symm
    rw [remove_eq h.1 hids hne] at hw
    subst hw
    refine ⟨⟨h.1.setRecords ((h.1 _).sublist (List.filter_sublist)) c, h.2⟩, funext fun name => ?_⟩
    rw [collection_setRecords, resolve_of_standard h.2, withoutIds, records_eq,
      resolve_of_standard h.2]
    split
    · next he =>
      rw [if_pos he.symm, values_filter (h.1 _), he]
    · next he => rw [if_neg (Ne.symm he)]
  delete_error {w w' ids c f} h hids hne hr := by
    rw [hd] at hr
    have hw : Except.error f = (w.remove ids c none).1 := (congrArg Prod.fst hr).symm
    rw [remove_eq h.1 hids hne] at hw
    cases hw
  upsert_error h hr := by rw [hu _ _ _ _ _ hr]

def refusing (f : Fault) : VectorStore Memory :=
  { backend with upsert := fun _ _ => throw f }

def refusingView (f : Fault) (standard : String) : (refusing f).View :=
  view standard rfl rfl fun _ _ _ _ _ h => (congrArg Prod.snd h).symm

end Memory

end Retrieval
