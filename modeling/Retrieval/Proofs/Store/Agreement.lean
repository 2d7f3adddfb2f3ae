import Retrieval.Proofs.Store.Client
import Retrieval.Proofs.Store.Item
import Retrieval.Proofs.Store.Kept

/-!
# Two stores with the same records

A store behind a faithful client and a store in memory that are written to alike stay in step: what
one holds as records the other holds as items. A listing then differs at most by the records whose
items a filter sees otherwise, so it gives the same ids from both for a filter that is neutral
about the records. Either of them fails where it needs the text of a number too long for one.
-/

namespace Retrieval

namespace Memory

theorem records_store (m : Memory) (records : List Record) (c : Option String) :
    (m.store records c).records c = (m.records c).update (records.map fun r => (r.id, r)) := by
  have hresolve : (m.store records c).resolve c = m.resolve c := rfl
  rw [records_eq, hresolve, collection_store, if_pos rfl, records_eq]

theorem values_store_perm {m : Memory} (hm : m.Kept) {records : List Record}
    (hids : (records.map (·.id)).Nodup) (c : Option String) :
    ((m.store records c).records c).values.Perm
      (records ++ (m.records c).values.filter fun r => r.id ∉ records.map (·.id)) := by
  have hkeyed : Keyed (m.records c) := hm (m.resolve c)
  have hkeys : Table.keys (records.map fun r => (r.id, r)) = records.map (·.id) := List.map_map
  have hvalues : (records.map fun r => (r.id, r)).map Prod.snd = records := by
    rw [List.map_map]
    exact List.map_id records
  have hupdate := Table.update_perm hkeyed.1 (hkeys.symm ▸ hids)
  rw [hkeys] at hupdate
  have hperm := hupdate.map Prod.snd
  rw [List.map_append, hvalues] at hperm
  rw [records_store, ← values_filter hkeyed]
  exact hperm

end Memory

/-- The ids of what is found are these, in some order; or something could not be told. -/
def FindsIds (ids : List String) (fault : Fault) (untold : Prop) (outcome : Outcome (List Match)) :
    Prop :=
  (∃ found, outcome = .ok found ∧ (found.map (·.record.id)).Perm ids) ∨
    (outcome = .error fault ∧ untold)

namespace FindsIds

variable {records others : List Record} {fault : Fault} {untold : Record → Prop}
  {outcome : Outcome (List Match)}

theorem of_perm {p : Record → Bool}
    (h : FindsIds ((records.filter p).map (·.id)) fault (∃ r ∈ records, untold r) outcome)
    (hperm : records.Perm others) :
    FindsIds ((others.filter p).map (·.id)) fault (∃ r ∈ others, untold r) outcome := by
  rcases h with ⟨found, hok, hids⟩ | ⟨hfault, r, hr, huntold⟩
  · exact .inl ⟨found, hok, hids.trans ((hperm.filter p).map (·.id))⟩
  · exact .inr ⟨hfault, r, hperm.mem_iff.1 hr, huntold⟩

theorem ids {ids : List String} {untold : Prop} (h : FindsIds ids fault untold outcome)
    {found : List Match} (hok : outcome = .ok found) : (found.map (·.record.id)).Perm ids := by
  rcases h with ⟨found', hok', hids⟩ | ⟨hfault, -⟩
  · obtain rfl := Except.ok.inj (hok.symm.trans hok')
    exact hids
  · cases hok.symm.trans hfault

end FindsIds

namespace Memory

theorem search_every {f : Filter} (hf : f.isWellFormed = true) {m : Memory} {c : Option String}
    {topK : Int} (htop : ((m.records c).length : Int) ≤ topK) (tenant : Option String) :
    FindsIds (((m.records c).values.filter fun r => f.passes r.fields).map (·.id)) Value.tooLong
      (∃ r ∈ (m.records c).values, f.isLegible r.fields = false)
      (m.search ⟨none, topK, some f, tenant, c⟩) := by
  rcases search_rank_cases (q := ⟨none, topK, some f, tenant, c⟩) rfl hf htop with
    hok | ⟨hfault, r, hr, heval⟩
  · refine .inl ⟨_, hok, ?_⟩
    show (((m.records c).values.filter fun r => f.passes r.fields).map fun r =>
      (⟨r, 1⟩ : Match)).map (·.record.id) |>.Perm _
    rw [List.map_map]
    exact .refl _
  · refine .inr ⟨hfault, r, hr, ?_⟩
    rcases Filter.evaluate_cases hf r.fields with hok | ⟨-, hillegible⟩
    · cases heval.symm.trans hok
    · exact hillegible

end Memory

namespace RemoteStore.Faithful

variable {ω : Type} {s : RemoteStore ω} (v : s.Faithful) {w : ω} {m : Memory} {c : Option String}

/-- The client holds the records of the store in memory, each as its item. -/
def Mirrors (c : Option String) (w : ω) (m : Memory) : Prop :=
  (v.contents w (s.target c)).Perm ((m.records c).values.map Record.item)

variable {v}

theorem Mirrors.store (hmirror : v.Mirrors c w m) (h : v.kept w) (hm : m.Kept)
    {records : List Record} (hids : (records.map (·.id)).Nodup)
    (hstorable : ∀ r ∈ records, r.isStorable = true) : ∃ w',
    s.upsert records c w = (.ok records.length, w') ∧ v.kept w' ∧
      v.Mirrors c w' (m.store records c) := by
  have hitemIds : (records.map Record.item).map (·.id) = records.map (·.id) := List.map_map
  obtain ⟨w', hupsert, h', hperm, -⟩ :=
    v.store h c (Item.mapM_ofRecord hstorable) (hitemIds ▸ hids)
  refine ⟨w', hupsert, h', ?_⟩
  rw [hitemIds] at hperm
  have hold := hmirror.filter fun i => i.id ∉ records.map (·.id)
  rw [List.filter_map] at hold
  -- Both sides drop the old records whose ids come again, and records and items share their ids.
  have hnew := (Memory.values_store_perm hm hids c).map Record.item
  rw [List.map_append] at hnew
  exact hperm.trans ((hold.append_left _).trans hnew.symm)

theorem Mirrors.query (hmirror : v.Mirrors c w m) (h : v.kept w)
    (hstorable : ∀ r ∈ (m.records c).values, r.isStorable = true) {f : Filter}
    (hf : f.isWellFormed = true) {topK : Int} (htop : ((m.records c).length : Int) ≤ topK)
    (tenant : Option String) : ∃ outcome w',
    s.query ⟨none, topK, some f, tenant, c⟩ w = (outcome, w') ∧
      FindsIds (((m.records c).values.filter fun r => f.passes r.item.metadata).map (·.id))
        (wrap "query" Value.tooLong)
        (∃ r ∈ (m.records c).values, r.item.isTold (some f) = false) outcome := by
  have hscalar : ∀ i ∈ v.contents w (s.target c), ∀ e ∈ i.metadata, e.2.isScalar = true := by
    intro i hi
    obtain ⟨r, hr, rfl⟩ := List.mem_map.1 (hmirror.mem_iff.1 hi)
    exact Record.scalar_item (hstorable r hr)
  obtain ⟨outcome, w', hquery, hgives, -, -⟩ :=
    v.query_listing h (some f) (fun _ hg => Option.some.inj hg ▸ hf) topK tenant c hscalar
  refine ⟨outcome, w', hquery, ?_⟩
  rcases hgives with rfl | ⟨rfl, i, hi, huntold⟩
  · refine .inl ⟨_, rfl, ?_⟩
    have hcount := hmirror.length_eq
    rw [List.length_map, Table.values, List.length_map] at hcount
    have hfew := List.length_filter_le (·.passes (some f)) (v.contents w (s.target c))
    rw [List.take_of_length_le (by omega), List.map_map]
    have hchosen := (hmirror.filter (·.passes (some f))).map (·.id)
    rwa [List.filter_map, List.map_map] at hchosen
  · obtain ⟨r, hr, rfl⟩ := List.mem_map.1 (hmirror.mem_iff.1 hi)
    exact .inr ⟨rfl, r, hr, huntold⟩

/-- Records written to two empty stores are found again in both: behind the client those whose items
pass the filter, in memory those whose own fields pass it, unless what is to be read or checked of
some record has no text. For a filter that is neutral about the records both find the same. -/
theorem listings_agree (h : v.kept w) (hempty : v.contents w (s.target c) = [])
    {records : List Record} (hids : (records.map (·.id)).Nodup)
    (hstorable : ∀ r ∈ records, r.isStorable = true) {f : Filter} (hf : f.isWellFormed = true)
    {topK : Int} (htop : (records.length : Int) ≤ topK) (tenant : Option String)
    (standard : String) :
    ∃ w₁ w₂ m behind inside,
      s.backend.upsert records c w = (.ok records.length, w₁) ∧
      s.backend.query ⟨none, topK, some f, tenant, c⟩ w₁ = (behind, w₂) ∧
      Memory.backend.upsert records c (.empty standard) = (.ok records.length, m) ∧
      Memory.backend.query ⟨none, topK, some f, tenant, c⟩ m = (inside, m) ∧
      FindsIds ((records.filter fun r => f.passes r.item.metadata).map (·.id))
        (wrap "query" Value.tooLong) (∃ r ∈ records, r.item.isTold (some f) = false) behind ∧
      FindsIds ((records.filter fun r => f.passes r.fields).map (·.id)) Value.tooLong
        (∃ r ∈ records, f.isLegible r.fields = false) inside ∧
      ((∀ r ∈ records, ∀ p ∈ f.predicates, p.isNeutral r = true) →
        ∀ found held, behind = .ok found → inside = .ok held →
          (found.map (·.record.id)).Perm (held.map (·.record.id))) := by
  have hmirror : v.Mirrors c w (.empty standard) := by
    rw [Mirrors, hempty]
    exact .refl _
  obtain ⟨w₁, hupsert, h₁, hmirror₁⟩ :=
    hmirror.store h (Memory.kept_empty standard) hids hstorable
  let m := (Memory.empty standard).store records c
  have hvalues : (m.records c).values.Perm records := by
    have hnone : ((Memory.empty standard).records c).values = [] := rfl
    have hperm := Memory.values_store_perm (Memory.kept_empty standard) hids c
    rwa [hnone, List.filter_nil, List.append_nil] at hperm
  have hlength : ((m.records c).length : Int) ≤ topK := by
    have hcount := hvalues.length_eq
    rw [Table.values, List.length_map] at hcount
    omega
  obtain ⟨behind, w₂, hquery, hbehind⟩ := hmirror₁.query h₁
    (fun r hr => hstorable r (hvalues.mem_iff.1 hr)) hf hlength tenant
  have hinside := (Memory.search_every hf hlength tenant).of_perm hvalues
  replace hbehind := hbehind.of_perm hvalues
  refine ⟨w₁, w₂, m, behind, _, hupsert, hquery, rfl, rfl, hbehind, hinside, ?_⟩
  intro hneutral found held hfound hheld
  have hsame : (records.filter fun r => f.passes r.item.metadata) =
      records.filter fun r => f.passes r.fields :=
    List.filter_congr fun r hr => Filter.passes_item (hstorable r hr) (hneutral r hr)
  rw [hsame] at hbehind
  exact (hbehind.ids hfound).trans (hinside.ids hheld).symm

/-- A record that neither bears the tag nor is later than the bound is the one that both find. -/
theorem both_list_early_untagged :
    let early : Record := ⟨"a", [1], "alpha", some [("createdAt", .moment .epoch)], none, none, none,
      some "acme", none⟩
    let tagged : Record := ⟨"b", [1], "beta", some [("tag", .text "old"),
      ("createdAt", .moment .epoch)], none, none, none, some "acme", none⟩
    let late : Record := ⟨"c", [1], "gamma", some [("createdAt", .moment (Time.Moment.epoch.later 1))],
      none, none, none, some "acme", none⟩
    let f : Filter := .all [.not (.pred ⟨"tag", .eq, .text "old"⟩),
      .pred ⟨"createdAt", .lte, .moment .epoch⟩]
    ∃ w₁ w₂ m found held,
      Shelf.store.backend.upsert [early, tagged, late] none (fun _ => []) = (.ok 3, w₁) ∧
      Shelf.store.backend.query ⟨none, 3, some f, none, none⟩ w₁ = (.ok found, w₂) ∧
      Memory.backend.upsert [early, tagged, late] none (.empty "default") = (.ok 3, m) ∧
      Memory.backend.query ⟨none, 3, some f, none, none⟩ m = (.ok held, m) ∧
      found.map (·.record.id) = ["a"] ∧ held.map (·.record.id) = ["a"] := by
  intro early tagged late f
  have hids : ([early, tagged, late].map (·.id)).Nodup := by decide
  have hstorable : ∀ r ∈ [early, tagged, late], r.isStorable = true := by decide
  have hfew : (([early, tagged, late].length : Nat) : Int) ≤ 3 := by decide
  obtain ⟨w₁, w₂, m, behind, inside, hupsert, hquery, hstore, hsearch, hbehind, hinside, hsame⟩ :=
    listings_agree (v := Shelf.faithful) (c := none) (w := fun _ => []) trivial rfl hids hstorable
      (f := f) (by decide) hfew none "default"
  have hlegible : ∀ r ∈ [early, tagged, late], r.item.isTold (some f) = true ∧
      f.isLegible r.fields = true := by
    decide +kernel
  have hchosen : ([early, tagged, late].filter fun r => f.passes r.fields).map (·.id) = ["a"] := by
    decide +kernel
  rcases hbehind with ⟨found, rfl, -⟩ | ⟨-, r, hr, huntold⟩
  · rcases hinside with ⟨held, rfl, hheld⟩ | ⟨-, r, hr, huntold⟩
    · have hfound := hsame (by decide +kernel) found held rfl rfl
      rw [hchosen, List.perm_singleton] at hheld
      rw [hheld, List.perm_singleton] at hfound
      exact ⟨w₁, w₂, m, found, held, hupsert, hquery, hstore, hsearch, hfound, hheld⟩
    · cases huntold.symm.trans (hlegible r hr).2
  · cases huntold.symm.trans (hlegible r hr).1

/-- The tenant of a record is among its fields behind a client, but not in memory. -/
theorem tenant_listed_behind_client_only :
    let r : Record := ⟨"a", [1], "alpha", none, none, none, none, some "acme", none⟩
    let q : Query := ⟨none, 10, some (Filter.ofTenant "acme"), none, none⟩
    ∃ w₁ w₂ m found,
      Shelf.store.backend.upsert [r] none (fun _ => []) = (.ok 1, w₁) ∧
      Shelf.store.backend.query q w₁ = (.ok found, w₂) ∧ found.map (·.record.id) = ["a"] ∧
      Memory.backend.upsert [r] none (.empty "default") = (.ok 1, m) ∧
      Memory.backend.query q m = (.ok [], m) := by
  intro r q
  exact ⟨_, _, _, _, rfl, rfl, rfl, rfl, rfl⟩

end RemoteStore.Faithful

end Retrieval
