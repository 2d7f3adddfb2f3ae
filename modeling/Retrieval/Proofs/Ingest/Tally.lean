import Mathlib.Algebra.Order.Ring.Int
import Retrieval.Proofs.Ingest.Displacing
import Retrieval.Proofs.Ingest.Turns

/-!
# What a batch reports and what it has stored

The records that a batch reports are all in its collection when it is over, unless its documents
displace one another. Then each of them takes away the first ten thousand of those before it, and
the collection holds what a tally of the sizes says.
-/

namespace Retrieval

namespace IndexOptions

/-- How many records are left when documents of these sizes are written one after the other. -/
def tally (o : IndexOptions) (sizes : List Nat) : Nat :=
  sizes.foldl (fun count size => (if o.displaces then count - 10000 else count) + size) 0

theorem tally_of_not_displaces {o : IndexOptions} (h : o.displaces = false) (sizes : List Nat) :
    o.tally sizes = sizes.sum := by
  have hfrom (count : Nat) : sizes.foldl
      (fun count size => (if o.displaces then count - 10000 else count) + size) count =
        count + sizes.sum := by
    induction sizes generalizing count with
    | nil => rfl
    | cons size later ih =>
        rw [List.foldl_cons, ih, List.sum_cons, h]
        simp only [Bool.false_eq_true, if_false]
        omega
  rw [tally, hfrom, Nat.zero_add]

theorem tally_le (o : IndexOptions) (sizes : List Nat) : o.tally sizes ≤ sizes.sum := by
  have hfrom (count : Nat) : sizes.foldl
      (fun count size => (if o.displaces then count - 10000 else count) + size) count ≤
        count + sizes.sum := by
    induction sizes generalizing count with
    | nil => exact Nat.le_refl _
    | cons size later ih =>
        rw [List.foldl_cons, List.sum_cons]
        refine Nat.le_trans (ih _) ?_
        split <;> omega
  exact Nat.le_trans (hfrom 0) (by omega)

end IndexOptions

theorem BatchReport.totalVectors_eq (b : BatchReport) :
    b.totalVectors = (b.results.map (·.vectorsCreated)).sum := by
  have hfrom (results : List IndexReport) (n : Int) :
      results.foldl (fun n r => n + r.vectorsCreated) n =
        n + (results.map (·.vectorsCreated)).sum := by
    induction results generalizing n with
    | nil => simp
    | cons r later ih =>
        rw [List.foldl_cons, ih, List.map_cons, List.sum_cons]
        omega
  rw [totalVectors, hfrom, zero_add]

namespace Stage

/-- What is in a report that is not yet told. -/
def untold {M : Type} [Zero M] (f : IndexReport → M) : Stage → M
  | .indexed _ _ r => f r
  | _ => 0

end Stage

namespace Course

variable {σ : Type} {p : Pipeline σ} {jobs : List Job} {permits : Nat} {o o' : IndexOptions}
  {memory : σ → Memory} {put : Memory → σ → σ} {u rest : Course σ} {m : Move σ} {j : Job}
  {chunks : List Chunk} {new : List Record}

def sizes (u : Course σ) : List Nat := u.noted Move.size?

/-- What is known of the collection of a batch at any time. -/
structure Tallied (p : Pipeline σ) (memory : σ → Memory) (o : IndexOptions) (u : Course σ) :
    Prop where
  assigns : Assigns p memory o u
  numbered : Numbered memory o u
  versioned : p.renews o = true → u.world.versionSerial ≤ 16 ^ 8 → Versioned memory o u
  count : (o.displaces = true → p.renews o = true → u.world.versionSerial ≤ 16 ^ 8) →
    (u.held memory o).length = o.tally u.sizes

theorem Tallied.moved (hfills : p.Fills memory put) (hholds : p.Holds memory)
    (hjobs : ∀ j ∈ jobs, j.options = o) (hm : Moved p jobs permits u rest m j)
    (hbound : m.after.chunkSerial ≤ 16 ^ 32) (h : Tallied p memory o u) :
    Tallied p memory o (rest.place m) := by
  have hcases := hm.held_or_indexes hfills hholds h.assigns h.numbered
  have hserial : u.world.versionSerial ≤ m.after.versionSerial := hm.passes.serials.2
  have hjob : j.options = o := hjobs j (List.mem_of_getElem? hm.job)
  refine ⟨h.assigns.moved hjobs hm hcases, h.numbered.moved hfills.numbers hm hcases hbound, ?_, ?_⟩
  · intro hrenews hversions
    have hv := h.versioned hrenews (Nat.le_trans hserial hversions)
    rcases hcases with ⟨hsame, -⟩ | ⟨o', chunks, new, hi⟩
    · by_cases hs : m.source = .queued
      · exact hv.made (hjob ▸ hrenews) hm hs hsame hversions
      · exact hv.kept hm hs hsame
    · exact hv.indexed hrenews hm hi
  · intro hversions
    have hbefore (hd : o.displaces = true) (hr : p.renews o = true) :
        u.world.versionSerial ≤ 16 ^ 8 := Nat.le_trans hserial (hversions hd hr)
    have hsizes : (rest.place m).sizes = u.sizes ++ m.size?.toList := hm.noted Move.size?
    rw [hsizes]
    rcases hcases with ⟨hsame, hnone⟩ | ⟨o', chunks, new, hi⟩
    · rw [hsame, hnone, h.count hbefore]
      exact congrArg o.tally (List.append_nil _).symm
    · rw [hi.length_held hm h.assigns fun hd hr => h.versioned hr (hbefore hd hr),
        h.count hbefore, hi.size, IndexOptions.tally, IndexOptions.tally, List.foldl_append]
      rfl

def reports (u : Course σ) : List IndexReport := u.noted Move.report?

/-- What is in the reports of indexed documents is told, or is still to be told. -/
structure Balanced (u : Course σ) : Prop where
  told : ∀ {M : Type} [AddCommMonoid M] (f : IndexReport → M),
    (∀ tenant, f (quotaDenial tenant) = 0) →
    ((u.told.filterMap (·.2.toOption)).map f).sum + u.total (Stage.untold f) =
      (u.reports.map f).sum
  counts : ∀ r ∈ u.reports, 0 ≤ r.vectorsCreated

theorem Moved.balance {M : Type} [AddCommMonoid M] {f : IndexReport → M}
    (hf : ∀ tenant, f (quotaDenial tenant) = 0) (hm : Moved p jobs permits u rest m j) :
    ((m.outcome?.toList.filterMap (·.2.toOption)).map f).sum + m.target.untold f =
      (m.report?.toList.map f).sum + m.source.untold f := by
  obtain ⟨number, source, target, before, after⟩ := m
  have hpasses := hm.passes
  clear hm
  cases hpasses with
  | denied full => simp [Move.outcome?, Move.report?, Stage.outcome?, Stage.untold, hf,
      Except.toOption]
  | _ => simp [Move.outcome?, Move.report?, Stage.outcome?, Stage.untold, Except.toOption]

theorem Balanced.moved (hfills : p.Fills memory put) (hm : Moved p jobs permits u rest m j)
    (h : Balanced u) :
    Balanced (rest.place m) := by
  have htold : (rest.place m).told = u.told ++ m.outcome?.toList := hm.noted Move.outcome?
  have hreports : (rest.place m).reports = u.reports ++ m.report?.toList := hm.noted Move.report?
  refine ⟨fun {M} _ f hf => ?_, ?_⟩
  · have hbalance := hm.balance hf
    have hbefore := h.told f hf
    obtain ⟨htotal, htotal'⟩ := hm.total (f := Stage.untold f) rfl fun _ => rfl
    rw [htotal] at hbefore
    rw [htold, hreports, htotal', List.filterMap_append, List.map_append, List.map_append,
      List.sum_append, List.sum_append, ← hbefore, add_assoc, ← add_assoc _ _ (rest.total _),
      hbalance]
    ac_rfl
  · intro r hr
    rw [hreports] at hr
    rcases List.mem_append.1 hr with hr | hr
    · exact h.counts r hr
    · have hreport := Option.mem_toList.1 hr
      unfold Move.report? at hreport
      split at hreport
      · rename_i o' d r' htarget
        cases hreport
        obtain ⟨chunks, hsource⟩ := (htarget ▸ hm.passes).source_of_indexed
        have hindexed := (hsource ▸ hm.passes).of_prepared.1
        rw [htarget] at hindexed
        cases hindexed
        obtain ⟨x, -, hindex⟩ := hfills.writes
        rw [hindex]
        exact x.vectorsCreated_nonneg chunks o' u.world.outside
      · cases hreport

/-- What stands in the collection and in the report once a batch is over. -/
structure Counts (p : Pipeline σ) (memory : σ → Memory) (o : IndexOptions) (uris : List String)
    (u : Course σ) : Prop where
  sizes : u.sizes.Perm ((u.report uris).results.filterMap (·.size?))
  total : (u.report uris).totalVectors = u.sizes.sum
  stored : o.displaces = false → (u.held memory o).length = (u.report uris).totalVectors
  displaced : (p.renews o = true → u.world.versionSerial ≤ 16 ^ 8) →
    (u.held memory o).length = o.tally u.sizes ∧ o.tally u.sizes ≤ u.sizes.sum

theorem results_report (uris : List String) (u : Course σ) :
    (u.report uris).results = u.told.filterMap (·.2.toOption) :=
  BatchReport.results_ofOutcomes uris u.told

theorem sizes_eq (u : Course σ) : u.sizes = u.reports.filterMap (·.size?) := by
  rw [reports, noted, List.filterMap_filterMap, sizes, noted]
  rfl

theorem sum_sizes {reports : List IndexReport} (h : ∀ r ∈ reports, 0 ≤ r.vectorsCreated) :
    (reports.map (·.vectorsCreated)).sum = (reports.filterMap (·.size?)).sum := by
  induction reports with
  | nil => rfl
  | cons r later ih =>
      have hlater := ih fun r hr => h r (List.mem_cons_of_mem _ hr)
      have hr : 0 ≤ r.vectorsCreated := h r List.mem_cons_self
      rw [List.map_cons, List.sum_cons, hlater, List.filterMap_cons, IndexReport.size?]
      by_cases hpos : 0 < r.vectorsCreated
      · simp only [if_pos hpos, List.sum_cons]
        omega
      · simp only [if_neg hpos]
        omega

theorem sum_singletons (reports : List IndexReport) :
    (reports.map fun r => (↑r.size?.toList : Multiset Nat)).sum =
      ↑(reports.filterMap (·.size?)) := by
  induction reports with
  | nil => rfl
  | cons r later ih =>
      rw [List.map_cons, List.sum_cons, ih, List.filterMap_cons]
      cases r.size? with
      | none => exact zero_add _
      | some size => exact Multiset.singleton_add _ _

theorem Balanced.results (h : Balanced u) (hover : u.IsOver) (uris : List String) {M : Type}
    [AddCommMonoid M] (f : IndexReport → M) (hf : ∀ tenant, f (quotaDenial tenant) = 0) :
    ((u.report uris).results.map f).sum = (u.reports.map f).sum := by
  have htold := h.told f hf
  rwa [total, hover.2, Multiset.map_zero, Multiset.sum_zero, add_zero, ← results_report uris]
    at htold

theorem Balanced.sizes (h : Balanced u) (hover : u.IsOver) (uris : List String) :
    u.sizes.Perm ((u.report uris).results.filterMap (·.size?)) ∧
      (u.report uris).totalVectors = u.sizes.sum := by
  constructor
  · have hsum := h.results hover uris (fun r => (↑r.size?.toList : Multiset Nat)) fun _ => rfl
    rw [sum_singletons, sum_singletons, ← sizes_eq] at hsum
    exact (Multiset.coe_eq_coe.1 hsum).symm
  · rw [BatchReport.totalVectors_eq, h.results hover uris (·.vectorsCreated) fun _ => rfl,
      sum_sizes h.counts, sizes_eq]

theorem Tallied.counts (h : Tallied p memory o u) (hb : Balanced u) (hover : u.IsOver)
    (uris : List String) : Counts p memory o uris u := by
  obtain ⟨hsizes, htotal⟩ := hb.sizes hover uris
  refine ⟨hsizes, htotal, fun hd => ?_, fun hversions => ?_⟩
  rotate_left
  · exact ⟨h.count fun _ => hversions, o.tally_le u.sizes⟩
  rw [h.count fun hdisplaces => absurd hdisplaces (ne_true_of_eq_false hd),
    IndexOptions.tally_of_not_displaces hd, htotal]

theorem Tallied.start {w : World σ} (hempty : (memory w.outside).records o.collection = [])
    (count : Nat) : Tallied p memory o (.start count w) := by
  have hheld : (Course.start count w).held memory o = [] := hempty
  have htotal {M : Type} [AddCommMonoid M] (f : Stage → M) :
      (Course.start count w).total f = 0 := rfl
  have hmarks : (Course.start count w).marks memory o = 0 := by
    rw [marks, hheld, htotal]
    rfl
  refine ⟨⟨fun x hx => absurd hx (Multiset.notMem_zero x), ?_⟩, ⟨?_, ?_, ?_, ?_⟩, ?_, ?_⟩
  · rw [hheld]
    exact List.forall_mem_nil _
  · rw [hheld]
    exact ⟨List.nodup_nil, List.forall_mem_nil _⟩
  · rw [hmarks]
    exact Multiset.nodup_zero
  · rw [hmarks]
    exact fun k hk => absurd hk (Multiset.notMem_zero k)
  · exact fun x hx => absurd hx (Multiset.notMem_zero x)
  · intro _ _
    refine ⟨Multiset.nodup_zero, fun k hk => absurd hk (Multiset.notMem_zero k), ?_⟩
    rw [hheld]
    exact List.forall_mem_nil _
  · intro _
    rw [hheld]
    rfl

theorem Tallied.elsewhere {w : World σ} (h : Tallied p memory o u)
    (hmemory : memory w.outside = memory u.world.outside)
    (hchunks : u.world.chunkSerial ≤ w.chunkSerial)
    (hversions : u.world.versionSerial ≤ w.versionSerial) :
    Tallied p memory o { u with world := w } := by
  have hheld : held memory o { u with world := w } = u.held memory o := by
    rw [held, hmemory, held]
  have hmarks : marks memory o { u with world := w } = u.marks memory o := by
    rw [marks, hheld, marks]
    rfl
  obtain ⟨hassigns, hnumbered, hversioned, hcount⟩ := h
  refine ⟨⟨hassigns.going, hheld ▸ hassigns.held⟩, ⟨hheld ▸ hnumbered.keyed,
    hmarks ▸ hnumbered.marks, ?_, hnumbered.long⟩, fun hr hb => ?_, fun hb => ?_⟩
  · rw [hmarks]
    intro k hk
    obtain ⟨serial, hlt, he⟩ := hnumbered.past k hk
    exact ⟨serial, Nat.lt_of_lt_of_le hlt hchunks, he⟩
  · obtain ⟨hapart, hpast, hstored⟩ := hversioned hr (Nat.le_trans hversions hb)
    refine ⟨hapart, fun k hk => ?_, ?_⟩
    · obtain ⟨serial, hlt, he⟩ := hpast k hk
      exact ⟨serial, Nat.lt_of_lt_of_le hlt hversions, he⟩
    · rw [hheld]
      intro r hr
      obtain ⟨v, hversion, hnot, serial, hlt, he⟩ := hstored r hr
      exact ⟨v, hversion, hnot, serial, Nat.lt_of_lt_of_le hlt hversions, he⟩
  · rw [hheld, hcount fun hd hr => Nat.le_trans hversions (hb hd hr)]
    rfl

theorem Balanced.start (count : Nat) (w : World σ) : Balanced (.start count w) :=
  ⟨fun _ _ => zero_add _, fun _ hr => nomatch hr⟩

end Course

/-- What is done beside a batch writes nothing to the store and takes no number back. -/
def World.Grows {σ : Type} (memory : σ → Memory) (w w' : World σ) : Prop :=
  memory w'.outside = memory w.outside ∧ w.chunkSerial ≤ w'.chunkSerial ∧
    w.versionSerial ≤ w'.versionSerial

/-- As long as no number is given away twice, a batch that is over has stored as many records as it
reports, unless each of its documents displaces those before it: then the records left are those of
the tally. -/
theorem Site.batch_stores_what_it_counts {σ : Type} (p : Pipeline σ) (uris : List String)
    (o : IndexOptions) (chunking : Option ChunkOptions) {limit cores : Option Int}
    {permits : Nat} (hpermits : batchPermits limit cores = .ok permits) {memory : σ → Memory}
    {put : Memory → σ → σ} (hfills : p.Fills memory put) (hholds : p.Holds memory)
    {s : Site σ} (hempty : (memory s.world.outside).records o.collection = []) :
    (∀ u, Course.Reaches p (batchJobs uris o chunking) permits (World.Grows memory)
        (.start uris.length s.world) u →
      u.IsOver → u.world.chunkSerial ≤ 16 ^ 32 → u.Counts p memory o uris) ∧
    (s.worker.asleep = [] → ∃ u s', Course.Reaches p (batchJobs uris o chunking) permits
        (World.Grows memory) (.start uris.length s.world) u ∧ u.IsOver ∧
      ingestBatch p uris o chunking limit cores s = (.ok (u.report uris), s') ∧
      s'.world = u.world) := by
  have hlength : (batchJobs uris o chunking).length = uris.length := List.length_map _
  have hjobs : ∀ j ∈ batchJobs uris o chunking, j.options = o := by
    intro j hj
    obtain ⟨uri, -, rfl⟩ := List.mem_map.1 hj
    rfl
  constructor
  · intro u hreach hover hbound
    have hstart := Course.Sound.start (batchJobs uris o chunking) s.world
    rw [hlength] at hstart
    have hkept := hstart.invariant (P := fun u => u.Balanced ∧
      (u.world.chunkSerial ≤ 16 ^ 32 → u.Tallied p memory o)) hreach
      ⟨.start uris.length s.world, fun _ => .start hempty uris.length⟩ ?_ ?_
    · exact (hkept.2 hbound).counts hkept.1 hover uris
    · rintro u rest m j - hm ⟨hbalanced, htallied⟩
      refine ⟨hbalanced.moved hfills hm, fun hafter => ?_⟩
      have hbefore := htallied (Nat.le_trans hm.passes.serials.1 hafter)
      exact hbefore.moved hfills hholds hjobs hm hafter
    · rintro u w ⟨hmemory, hchunks, hversions⟩ ⟨hbalanced, htallied⟩
      exact ⟨⟨hbalanced.told, hbalanced.counts⟩, fun hafter =>
        (htallied (Nat.le_trans hchunks hafter)).elsewhere hmemory hchunks hversions⟩
  · intro hquiet
    exact ingestBatch_returns p uris o chunking hpermits hquiet _

/-- Two documents become two versions of one document, and the second displaces the first: two
records are reported and one is stored. -/
theorem Site.second_version_displaces_first_of_batch :
    let loader : Loader Memory :=
      ⟨fun _ => true, fun _ => pure 1, fun uri => pure ⟨uri, [97], "text/plain", none⟩⟩
    let route : Routing Memory := ⟨⟨"unit", fun texts => pure (texts.map fun _ => [1])⟩, []⟩
    let x : Indexer Memory := ⟨route, Memory.backend, fun _ => .epoch⟩
    let p : Pipeline Memory := .ofIndexer loader .plain .standard x true false fun _ => .epoch
    let o : IndexOptions := ⟨"acme", some "guide", none, none, .update, true⟩
    let s : Site Memory := ⟨.new (.empty "default") (.new false []), .new 100⟩
    let after := ingestBatch p ["a", "b"] o none (some 2) none s
    s.world.outside.records o.collection = [] ∧
      after.1.toOption.map (·.totalVectors) = some 2 ∧
      after.1.toOption.map (·.results.map (·.errors)) = some [none, none] ∧
      (after.2.world.outside.records o.collection).length = 1 :=
  ⟨rfl, by decide +kernel, by decide +kernel, by decide +kernel⟩

theorem Site.batch_of_given_version_is_stored :
    let loader : Loader Memory :=
      ⟨fun _ => true, fun _ => pure 1, fun uri => pure ⟨uri, [97], "text/plain", none⟩⟩
    let route : Routing Memory := ⟨⟨"unit", fun texts => pure (texts.map fun _ => [1])⟩, []⟩
    let x : Indexer Memory := ⟨route, Memory.backend, fun _ => .epoch⟩
    let p : Pipeline Memory := .ofIndexer loader .plain .standard x true false fun _ => .epoch
    let o : IndexOptions := ⟨"acme", some "guide", some "v1", none, .update, true⟩
    let s : Site Memory := ⟨.new (.empty "default") (.new false []), .new 100⟩
    let after := ingestBatch p ["a", "b"] o none (some 2) none s
    batchPermits (some 2) none = .ok 2 ∧ p.Fills id (fun m _ => m) ∧
      p.Holds (id : Memory → Memory) ∧ s.world.outside.records o.collection = [] ∧
      s.worker.asleep = [] ∧ o.displaces = false ∧
      after.2.world.chunkSerial ≤ 16 ^ 32 ∧
      ∃ u : Course Memory, after.1 = .ok (u.report ["a", "b"]) ∧
        u.Counts p id o ["a", "b"] ∧ (u.held id o).length = 2 := by
  intro loader route x p o s after
  have hpermits : batchPermits (some 2) none = .ok 2 := rfl
  have hfills : p.Fills id (fun m _ => m) :=
    ⟨Chunker.numbers_ofStrategies _ _, x, ⟨rfl, fun _ _ => rfl, fun _ _ _ => rfl⟩, rfl⟩
  have hholds : p.Holds (id : Memory → Memory) :=
    ⟨fun _ _ => rfl, fun _ _ => rfl, fun _ _ => rfl, fun _ _ _ _ => rfl,
      Version.keeps_list (fun _ _ => rfl) _⟩
  have hempty : s.world.outside.records o.collection = [] := rfl
  have hbound : after.2.world.chunkSerial ≤ 16 ^ 32 := by decide +kernel
  have hlength : (after.2.world.outside.records o.collection).length = 2 := by decide +kernel
  obtain ⟨hall, hruns⟩ :=
    batch_stores_what_it_counts p ["a", "b"] o none hpermits hfills hholds hempty
  obtain ⟨u, s', hreach, hover, hreturns, hworld⟩ := hruns rfl
  have hafter : after = (.ok (u.report ["a", "b"]), s') := hreturns
  rw [hafter] at hbound hlength
  refine ⟨hpermits, hfills, hholds, hempty, rfl, rfl, hafter ▸ hbound, u, congrArg Prod.fst hafter,
    hall u hreach hover (hworld ▸ hbound), ?_⟩
  rw [Course.held, ← hworld]
  exact hlength

end Retrieval
