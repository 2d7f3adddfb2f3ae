import Mathlib.Algebra.Order.Ring.Int
import Mathlib.Data.List.Perm.Basic
import Retrieval.Proofs.Ingest.Steps
import Retrieval.Proofs.Ingest.Turns
import Retrieval.Store.Memory

/-!
# What a batch reports, writes and counts

Every document of a batch has one outcome, whatever the order of the steps. A document that failed
wrote nothing, and the usage of the tenant grows by the documents of which something was written.
-/

namespace Retrieval

open Relation (ReflTransGen)

variable {σ κ : Type}

namespace Move

def loaded? (m : Move σ) : Option (Nat × Document) :=
  match m.target with
  | .loaded _ d => some (m.number, d)
  | _ => none

def counted? (m : Move σ) : Option (Nat × Document) :=
  match m.source with
  | .indexed _ d r => if 0 < r.vectorsCreated then some (m.number, d) else none
  | _ => none

theorem target_of_loaded {m : Move σ} {x : Nat × Document} (h : m.loaded? = some x) :
    ∃ o, x.1 = m.number ∧ m.target = .loaded o x.2 := by
  unfold loaded? at h
  split at h
  · rename_i o d ht
    cases h
    exact ⟨o, rfl, ht⟩
  · cases h

theorem document_of_counted {m : Move σ} {x : Nat × Document} (h : m.counted? = some x) :
    x.1 = m.number ∧ m.source.document? = some x.2 := by
  unfold counted? at h
  split at h
  · rename_i o d r hs
    split at h
    · cases h
      exact ⟨rfl, by rw [hs]; rfl⟩
    · cases h
  · cases h

end Move

namespace Course

variable {p : Pipeline σ} {jobs : List Job} {permits number : Nat} {tenant : String}
  {beside : World σ → World σ → Prop} {held : σ → κ} {u u' rest : Course σ} {m : Move σ} {j : Job}
  {s : Stage}

def loaded (u : Course σ) : List (Nat × Document) := u.noted Move.loaded?

def counted (u : Course σ) : List (Nat × Document) := u.noted Move.counted?

/-- The number of a document that was ingested, if something of it was written. -/
def written? : Nat × Outcome IndexReport → Option Nat
  | (number, .ok r) => if 0 < r.vectorsCreated then some number else none
  | (_, .error _) => none

/-- Every document on its way goes on for the tenant with what its loader gave for it. -/
structure Carries (p : Pipeline σ) (jobs : List Job) (tenant : String) (u : Course σ) : Prop where
  own : ∀ x ∈ u.going, x.2.IsFor tenant
  going : ∀ x ∈ u.going, ∀ d, x.2.document? = some d → (x.1, d) ∈ u.loaded
  counted : ∀ x ∈ u.counted, x ∈ u.loaded
  loaded : ∀ x ∈ u.loaded, ∃ j outside,
    jobs[x.1]? = some j ∧ (p.loader.receive j.uri outside).1 = .ok x.2

theorem Carries.moved (hjobs : ∀ j ∈ jobs, j.options.tenantId = tenant)
    (hm : Moved p jobs permits u rest m j) (h : Carries p jobs tenant u) :
    Carries p jobs tenant (rest.place m) := by
  have htenant : j.options.tenantId = tenant := hjobs j (List.mem_of_getElem? hm.job)
  have hsource : m.source.IsFor tenant ∧
      ∀ d, m.source.document? = some d → (m.number, d) ∈ u.loaded := by
    rcases hm.picks.source with hs | hs
    · rw [hs]
      exact ⟨fun _ h => (nomatch h), fun _ h => (nomatch h)⟩
    · exact ⟨h.own _ hs, h.going _ hs⟩
  have hloaded : (rest.place m).loaded = u.loaded ++ m.loaded?.toList := hm.noted Move.loaded?
  have hcounted : (rest.place m).counted = u.counted ++ m.counted?.toList :=
    hm.noted Move.counted?
  have hkept : ∀ x ∈ u.loaded, x ∈ (rest.place m).loaded := by
    intro x hx
    rw [hloaded]
    exact List.mem_append_left _ hx
  refine ⟨?_, ?_, ?_, ?_⟩
  · intro x hx
    rcases (going_place rest m x).1 hx with hx | ⟨-, rfl⟩
    · exact h.own x (hm.picks.mem_going hx)
    · rw [← htenant] at hsource ⊢
      exact hm.passes.isFor hsource.1
  · intro x hx d hd
    rcases (going_place rest m x).1 hx with hx | ⟨-, rfl⟩
    · exact hkept _ (h.going x (hm.picks.mem_going hx) d hd)
    · rcases hm.passes.document hd with hs | ⟨o, hs⟩
      · exact hkept _ (hsource.2 d hs)
      · rw [hloaded, Move.loaded?, hs]
        exact List.mem_append_right _ (List.mem_singleton_self _)
  · intro x hx
    rw [hcounted] at hx
    rcases List.mem_append.1 hx with hx | hx
    · exact hkept x (h.counted x hx)
    · obtain ⟨hnumber, hd⟩ := Move.document_of_counted (Option.mem_toList.1 hx)
      obtain ⟨number, d⟩ := x
      cases hnumber
      exact hkept _ (hsource.2 d hd)
  · intro x hx
    rw [hloaded] at hx
    rcases List.mem_append.1 hx with hx | hx
    · exact h.loaded x hx
    · obtain ⟨o, hnumber, htarget⟩ := Move.target_of_loaded (Option.mem_toList.1 hx)
      have hpasses := hm.passes
      rw [htarget] at hpasses
      obtain ⟨outside, hreceive⟩ := hpasses.of_loaded
      exact ⟨j, outside, hnumber ▸ hm.job, hreceive⟩

/-- Whoever is written about is on the way to be counted, or was told to be ingested. -/
def Writes (held : σ → κ) (u : Course σ) : Prop :=
  ∀ m ∈ u.moves, held m.after.outside = held m.before.outside ∨
    (∃ o d r, (m.number, Stage.indexed o d r) ∈ u.going) ∨ ∃ r, (m.number, .ok r) ∈ u.told

theorem Writes.moved (hheld : p.Holds held) (hm : Moved p jobs permits u rest m j)
    (h : Writes held u) : Writes held (rest.place m) := by
  have htold : (rest.place m).told = u.told ++ m.outcome?.toList := hm.noted Move.outcome?
  intro n hn
  rcases List.mem_append.1 hn with hn | hn
  · rcases h n (hm.picks.moves ▸ hn) with hsame | ⟨o, d, r, hgoing⟩ | ⟨r, hr⟩
    · exact Or.inl hsame
    · rcases hm.picks.mem_rest hgoing with heq | hrest
      -- The document that was indexed is the one that takes its last step.
      · obtain ⟨hnumber, hsource⟩ := Prod.mk.inj heq
        have houtcome : m.outcome? = some (n.number, .ok r) := by
          have hpasses := hm.passes
          rw [← hsource] at hpasses
          rw [Move.outcome?, hpasses.of_indexed.1, hnumber]
          rfl
        refine Or.inr (Or.inr ⟨r, ?_⟩)
        rw [htold, houtcome]
        exact List.mem_append_right _ (List.mem_singleton_self _)
      · exact Or.inr (Or.inl ⟨o, d, r, (going_place rest m _).2 (Or.inl hrest)⟩)
    · refine Or.inr (Or.inr ⟨r, ?_⟩)
      rw [htold]
      exact List.mem_append_left _ hr
  · cases List.mem_singleton.1 hn
    by_cases hs : ∃ o d chunks, m.source = .prepared o d chunks
    · obtain ⟨o, d, chunks, hs⟩ := hs
      have hpasses := hm.passes
      rw [hs] at hpasses
      refine Or.inr (Or.inl ⟨o, d, (p.index chunks o u.world.outside).1, ?_⟩)
      rw [going_place, hpasses.of_prepared.1]
      exact Or.inr ⟨rfl, rfl⟩
    · refine Or.inl ?_
      rw [hm.before]
      exact hheld.passes hm.passes fun o d chunks h => hs ⟨o, d, chunks, h⟩

def charge (tenant : String) (l : Ledger) (x : Nat × Document) : Ledger :=
  l.recordDocument tenant x.2.content.length

/-- The books are those of the beginning with every counted document written into them. -/
structure Charged (p : Pipeline σ) (tenant : String) (w : World σ) (u : Course σ) : Prop where
  registry : u.world.registry = w.registry
  ledger : p.limited = true → u.world.ledger = u.counted.foldl (charge tenant) w.ledger
  counted : u.counted.map Prod.fst = u.told.filterMap written?

/-- With its last step a document is counted if and only if something of it was written. -/
theorem Moved.counted (hm : Moved p jobs permits u rest m j) :
    m.counted?.toList.map Prod.fst = m.outcome?.toList.filterMap written? := by
  obtain ⟨number, source, target, before, after⟩ := m
  have hpasses := hm.passes
  clear hm
  cases hpasses with
  | recorded o d r =>
      by_cases hr : 0 < r.vectorsCreated
      · simp [Move.counted?, Move.outcome?, written?, Stage.outcome?, hr]
      · simp [Move.counted?, Move.outcome?, written?, Stage.outcome?, hr]
  | _ => rfl

theorem Moved.books (hm : Moved p jobs permits u rest m j) (htenant : m.source.IsFor tenant) :
    m.after.registry = u.world.registry ∧ (p.limited = true →
      m.after.ledger = m.counted?.toList.foldl (charge tenant) u.world.ledger) := by
  have hpasses := hm.passes
  by_cases hs : ∃ o d r, m.source = .indexed o d r
  · obtain ⟨o, d, r, hs⟩ := hs
    rw [hs] at hpasses htenant
    rw [Move.counted?, hs, hpasses.of_indexed.2]
    refine ⟨p.registry_record _ o d r, fun hp => ?_⟩
    by_cases hr : 0 < r.vectorsCreated
    · simp [Pipeline.record, hp, hr, charge, htenant o rfl]
    · simp [Pipeline.record, hr]
  · have hbooks := Pipeline.books_of_passes hpasses fun o d r h => hs ⟨o, d, r, h⟩
    have hnone : m.counted? = none := by
      unfold Move.counted?
      split
      · rename_i o d r h
        exact absurd ⟨o, d, r, h⟩ hs
      · rfl
    rw [hnone]
    exact ⟨congrArg Prod.fst hbooks, fun _ => congrArg Prod.snd hbooks⟩

theorem Charged.moved {w : World σ} (hc : Carries p jobs tenant u)
    (hm : Moved p jobs permits u rest m j) (h : Charged p tenant w u) :
    Charged p tenant w (rest.place m) := by
  have htenant : m.source.IsFor tenant := by
    rcases hm.picks.source with hs | hs
    · rw [hs]
      exact fun _ h => nomatch h
    · exact hc.own _ hs
  obtain ⟨hregistry, hledger⟩ := hm.books htenant
  have hcounted : (rest.place m).counted = u.counted ++ m.counted?.toList :=
    hm.noted Move.counted?
  have htold : (rest.place m).told = u.told ++ m.outcome?.toList := hm.noted Move.outcome?
  refine ⟨?_, ?_, ?_⟩
  · exact hregistry.trans h.registry
  · intro hp
    rw [hcounted, List.foldl_append, ← h.ledger hp]
    exact hledger hp
  · rw [hcounted, htold, List.map_append, List.filterMap_append, h.counted, hm.counted]

theorem usage_charges (tenant : String) (xs : List (Nat × Document)) (l : Ledger) :
    ((xs.foldl (charge tenant) l).usage tenant).documents =
        (l.usage tenant).documents + xs.length ∧
      ((xs.foldl (charge tenant) l).usage tenant).storageBytes =
        (l.usage tenant).storageBytes + (xs.map fun x => (x.2.content.length : Int)).sum ∧
      ∀ other ≠ tenant, (xs.foldl (charge tenant) l).usage other = l.usage other := by
  induction xs generalizing l with
  | nil => simp
  | cons x later ih =>
      obtain ⟨hdocuments, hbytes, hothers⟩ := ih (charge tenant l x)
      have hself : (charge tenant l x).usage tenant =
          (l.usage tenant).addDocument x.2.content.length := by
        rw [charge, Ledger.recordDocument, Ledger.usage_set, if_pos rfl]
      rw [List.foldl_cons]
      refine ⟨?_, ?_, ?_⟩
      · rw [hdocuments, hself, List.length_cons]
        simp only [Usage.addDocument]
        omega
      · rw [hbytes, hself, List.map_cons, List.sum_cons]
        simp only [Usage.addDocument]
        omega
      · intro other hother
        rw [hothers other hother]
        exact Ledger.usage_recordDocument_of_ne hother.symm l _

theorem Sound.outcomes (h : Sound jobs u) (hover : u.IsOver) :
    ∃ outcomes : List (Outcome IndexReport), outcomes.length = jobs.length ∧
      u.told.Perm ((List.range jobs.length).zip outcomes) := by
  have hperm := (h.told_perm hover).symm
  rw [← congrFun (congrFun (List.eq_map_comp_perm Prod.fst) _) _] at hperm
  obtain ⟨ordered, hnumbers, htold⟩ := hperm
  refine ⟨ordered.map Prod.snd, ?_, ?_⟩
  · have hlength := congrArg List.length hnumbers
    rw [List.length_range, List.length_map] at hlength
    rw [List.length_map, hlength]
  · rw [hnumbers, ← List.unzip_fst, ← List.unzip_snd, List.zip_unzip]
    exact htold.symm

/-- A document that failed wrote nothing, at no step. -/
theorem Writes.failed (h : Writes held u) (hs : Sound jobs u) {m : Move σ} (hm : m ∈ u.moves)
    {f : Fault} (hf : (m.number, .error f) ∈ u.told) :
    held m.after.outside = held m.before.outside := by
  have hnodup : u.numbers.Nodup := hs.numbers ▸ Multiset.nodup_range _
  obtain ⟨-, htold, hapart⟩ := Multiset.nodup_add.1 hnodup
  rcases h m hm with hsame | ⟨o, d, r, hgoing⟩ | ⟨r, hr⟩
  · exact hsame
  · have hleft : m.number ∈ u.queued + u.going.map Prod.fst :=
      Multiset.mem_add.2 (Or.inr (Multiset.mem_map_of_mem Prod.fst hgoing))
    exact absurd (List.mem_map_of_mem hf) (Multiset.disjoint_left.1 hapart hleft)
  · have heq := List.inj_on_of_nodup_map htold hf hr rfl
    cases heq

def failure? : String × Outcome IndexReport → Option BatchFailure
  | (_, .ok _) => none
  | (uri, .error f) => some ⟨uri, f.text⟩

theorem report_perm {uris : List String} {outcomes : List (Outcome IndexReport)}
    (hlength : outcomes.length = uris.length)
    (h : u.told.Perm ((List.range uris.length).zip outcomes)) :
    (u.report uris).results.Perm (outcomes.filterMap (·.toOption)) ∧
      (u.report uris).errors.Perm ((uris.zip outcomes).filterMap failure?) := by
  have huris : (List.range uris.length).map (uris.getD · "") = uris := by
    refine List.ext_getElem (by simp) ?_
    intro i hi hi'
    simp [hi']
  have houtcomes : ((List.range uris.length).zip outcomes).map Prod.snd = outcomes :=
    List.map_snd_zip (by rw [hlength, List.length_range])
  have hnamed : uris.zip outcomes =
      ((List.range uris.length).zip outcomes).map (Prod.map (uris.getD · "") id) := by
    rw [← List.zip_map_left, huris]
  constructor
  · have hresults : outcomes.filterMap (·.toOption) =
        (((List.range uris.length).zip outcomes).filterMap (·.2.toOption)) := by
      conv_lhs => rw [← houtcomes, List.filterMap_map]
      rfl
    rw [hresults, report, BatchReport.results_ofOutcomes]
    exact h.filterMap _
  · rw [hnamed, List.filterMap_map]
    refine List.Perm.trans (List.Perm.of_eq ?_) (h.filterMap _)
    refine List.filterMap_congr ?_
    rintro ⟨number, f | r⟩ - <;> rfl

theorem length_counted {w : World σ} (h : Charged p tenant w u) (uris : List String) :
    u.counted.length = (u.report uris).results.countP fun r => 0 < r.vectorsCreated := by
  have hcount : ∀ told : List (Nat × Outcome IndexReport), (told.filterMap written?).length =
      (BatchReport.ofOutcomes uris told).results.countP fun r => 0 < r.vectorsCreated := by
    intro told
    induction told with
    | nil => rfl
    | cons x later ih =>
        obtain ⟨number, f | r⟩ := x
        · exact ih
        · by_cases hr : 0 < r.vectorsCreated
          · have hsome : written? (number, .ok r) = some number := if_pos hr
            rw [List.filterMap_cons_some hsome, List.length_cons, ih]
            simp [BatchReport.ofOutcomes, hr]
          · have hnone : written? (number, .ok r) = none := if_neg hr
            rw [List.filterMap_cons_none hnone, ih]
            simp [BatchReport.ofOutcomes, hr]
  rw [← List.length_map, h.counted]
  exact hcount u.told

/-- What stands once all documents of a batch are over. -/
structure Accounts (p : Pipeline σ) (uris : List String) (tenant : String) (w : World σ)
    (u : Course σ) : Prop where
  outcomes : ∃ outcomes : List (Outcome IndexReport), outcomes.length = uris.length ∧
    u.told.Perm ((List.range uris.length).zip outcomes) ∧
    (u.report uris).results.Perm (outcomes.filterMap (·.toOption)) ∧
    (u.report uris).errors.Perm ((uris.zip outcomes).filterMap failure?)
  counted : u.counted.map Prod.fst = u.told.filterMap written?
  contents : ∀ x ∈ u.counted, ∃ uri outside,
    uris[x.1]? = some uri ∧ (p.loader.receive uri outside).1 = .ok x.2 ∧ x ∈ u.loaded
  registry : u.world.registry = w.registry
  documents : p.limited = true → (u.world.ledger.usage tenant).documents =
    (w.ledger.usage tenant).documents +
      (u.report uris).results.countP fun r => 0 < r.vectorsCreated
  storageBytes : p.limited = true → (u.world.ledger.usage tenant).storageBytes =
    (w.ledger.usage tenant).storageBytes + (u.counted.map fun x => (x.2.content.length : Int)).sum
  others : p.limited = true → ∀ other ≠ tenant,
    u.world.ledger.usage other = w.ledger.usage other

theorem Sound.accounts {uris : List String} {o : IndexOptions} {chunking : Option ChunkOptions}
    {w : World σ} (hs : Sound (batchJobs uris o chunking) u)
    (hcarries : Carries p (batchJobs uris o chunking) tenant u)
    (hcharged : Charged p tenant w u) (hover : u.IsOver) : Accounts p uris tenant w u := by
  have hjobs : (batchJobs uris o chunking).length = uris.length := List.length_map _
  obtain ⟨outcomes, hlength, htold⟩ := hs.outcomes hover
  rw [hjobs] at hlength htold
  refine ⟨⟨outcomes, hlength, htold, report_perm hlength htold⟩, hcharged.counted, ?_,
    hcharged.registry, fun hp => ?_, fun hp => ?_, fun hp => ?_⟩
  · intro x hx
    have hloaded := hcarries.counted x hx
    obtain ⟨j, outside, hj, hreceive⟩ := hcarries.loaded x hloaded
    rw [batchJobs, List.getElem?_map] at hj
    obtain ⟨uri, huri, rfl⟩ := Option.map_eq_some_iff.1 hj
    exact ⟨uri, outside, huri, hreceive, hloaded⟩
  · rw [hcharged.ledger hp, (usage_charges tenant u.counted w.ledger).1, length_counted hcharged]
  · rw [hcharged.ledger hp]
    exact (usage_charges tenant u.counted w.ledger).2.1
  · rw [hcharged.ledger hp]
    exact (usage_charges tenant u.counted w.ledger).2.2

theorem Carries.start (p : Pipeline σ) (jobs : List Job) (tenant : String) (count : Nat)
    (w : World σ) : Carries p jobs tenant (.start count w) where
  own x hx := absurd hx (Multiset.notMem_zero x)
  going x hx := absurd hx (Multiset.notMem_zero x)
  counted _ hx := nomatch hx
  loaded _ hx := nomatch hx

theorem Charged.start (p : Pipeline σ) (tenant : String) (count : Nat) (w : World σ) :
    Charged p tenant w (.start count w) := ⟨rfl, fun _ => rfl, rfl⟩

theorem Charged.elsewhere {w w' : World σ} (h : Charged p tenant w u)
    (hbooks : w'.books = u.world.books) : Charged p tenant w { u with world := w' } := by
  obtain ⟨hregistry, hledger⟩ := Prod.mk.inj hbooks
  exact ⟨hregistry.trans h.registry, fun hp => hledger.trans (h.ledger hp), h.counted⟩

theorem Sound.kept {w : World σ} (hs : Sound jobs u)
    (hjobs : ∀ j ∈ jobs, j.options.tenantId = tenant) (hheld : p.Holds held)
    (hbeside : ∀ w w', beside w w' → w'.books = w.books) (hr : Reaches p jobs permits beside u u')
    (h : u.Writes held ∧ u.Carries p jobs tenant ∧ u.Charged p tenant w) :
    u'.Writes held ∧ u'.Carries p jobs tenant ∧ u'.Charged p tenant w := by
  refine hs.invariant (P := fun u => u.Writes held ∧ u.Carries p jobs tenant ∧
    u.Charged p tenant w) hr h ?_ ?_
  · rintro u rest m j - hm ⟨hwrites, hcarries, hcharged⟩
    exact ⟨hwrites.moved hheld hm, hcarries.moved hjobs hm, hcharged.moved hcarries hm⟩
  · rintro u w' happens ⟨hwrites, hcarries, hcharged⟩
    exact ⟨hwrites, ⟨hcarries.own, hcarries.going, hcarries.counted, hcarries.loaded⟩,
      hcharged.elsewhere (hbeside _ _ happens)⟩

end Course

/-- A batch takes at most five steps for each of its documents, and some document can take one until
all are over, in whatever order they go. No step of a document that failed changes anything that
is held. In the end every document has one outcome, told in the report, and the usage of the tenant
has grown by the documents of which something was written. A batch that runs ends like this. -/
theorem Site.batch_accounts (p : Pipeline σ) (uris : List String) (o : IndexOptions)
    (chunking : Option ChunkOptions) {limit cores : Option Int} {permits : Nat}
    (hpermits : batchPermits limit cores = .ok permits) {held : σ → κ} (hheld : p.Holds held)
    {beside : World σ → World σ → Prop} (hbeside : ∀ w w', beside w w' → w'.books = w.books)
    {s : Site σ} (hquiet : s.worker.asleep = []) :
    (∀ u, Course.Reaches p (batchJobs uris o chunking) permits beside
        (.start uris.length s.world) u →
      u.moves.length ≤ 5 * uris.length ∧
      (u.IsOver ∨ ∃ u', Course.Step p (batchJobs uris o chunking) permits beside u u' ∧
        u'.moves.length = u.moves.length + 1) ∧
      (∀ m ∈ u.moves, ∀ f, (m.number, .error f) ∈ u.told →
        held m.after.outside = held m.before.outside) ∧
      (u.IsOver → u.Accounts p uris o.tenantId s.world)) ∧
    ∃ u s', Course.Reaches p (batchJobs uris o chunking) permits beside
        (.start uris.length s.world) u ∧
      ingestBatch p uris o chunking limit cores s = (.ok (u.report uris), s') ∧
      s'.world = u.world ∧ u.Accounts p uris o.tenantId s.world := by
  have hlength : (batchJobs uris o chunking).length = uris.length := List.length_map _
  have hjobs : ∀ j ∈ batchJobs uris o chunking, j.options.tenantId = o.tenantId := by
    intro j hj
    obtain ⟨uri, -, rfl⟩ := List.mem_map.1 hj
    rfl
  have hall : ∀ u, Course.Reaches p (batchJobs uris o chunking) permits beside
      (.start uris.length s.world) u →
      Course.Sound (batchJobs uris o chunking) u ∧ u.Writes held ∧
        u.Carries p (batchJobs uris o chunking) o.tenantId ∧
        u.Charged p o.tenantId s.world := by
    intro u hreach
    have hstart := Course.Sound.start (batchJobs uris o chunking) s.world
    rw [hlength] at hstart
    have hwrites : (Course.start uris.length s.world).Writes held := fun m hm => nomatch hm
    have hcarries := Course.Carries.start p (batchJobs uris o chunking) o.tenantId uris.length
      s.world
    have hcharged := Course.Charged.start p o.tenantId uris.length s.world
    exact ⟨hstart.reaches hreach,
      hstart.kept hjobs hheld hbeside hreach ⟨hwrites, hcarries, hcharged⟩⟩
  refine ⟨fun u hreach => ?_, ?_⟩
  · obtain ⟨hsound, hwrites, hcarries, hcharged⟩ := hall u hreach
    have hbound := hsound.bound
    rw [hlength] at hbound
    exact ⟨by omega, hsound.isOver_or_moves (one_le_of_batchPermits hpermits),
      fun m hm f hf => hwrites.failed hsound hm hf, hsound.accounts hcarries hcharged⟩
  · obtain ⟨u, s', hreach, hover, hreturns, hworld⟩ :=
      ingestBatch_returns p uris o chunking hpermits hquiet beside
    obtain ⟨hsound, -, hcarries, hcharged⟩ := hall u hreach
    exact ⟨u, s', hreach, hreturns, hworld, hsound.accounts hcarries hcharged hover⟩

/-- One document cannot be loaded and one cannot be cut: the third one is told twice and counted
twice. -/
theorem Site.failed_document_is_told_not_counted :
    let loader : Loader Memory := ⟨fun _ => true, fun _ => pure 1, fun uri =>
      if uri = "b" then throw (.badValue "gone")
      else pure ⟨uri, if uri = "c" then [99] else [97], "text/plain", none⟩⟩
    let chunker : Chunker Memory := ⟨fun options serial text =>
      if text = "c" then throw (.badValue "hard") else Chunker.standard.cut options serial text⟩
    let route : Routing Memory := ⟨⟨"unit", fun texts => pure (texts.map fun _ => [1])⟩, []⟩
    let x : Indexer Memory := ⟨route, Memory.backend, fun _ => .epoch⟩
    let p : Pipeline Memory := .ofIndexer loader .plain chunker x false true fun _ => .epoch
    let o : IndexOptions := ⟨"acme", none, none, none, .upsert, false⟩
    let registry : Registry := .new false [⟨"acme", "Acme", none⟩]
    let s : Site Memory := ⟨.new (.empty "default") registry, .new 100⟩
    let beside : World Memory → World Memory → Prop := fun w w' => w'.books = w.books
    batchPermits (some 2) none = .ok 2 ∧ p.Holds (fun m : Memory => m) ∧ s.worker.asleep = [] ∧
      (ingestBatch p ["a", "b", "a", "c"] o none (some 2) none s).2.world.documents "acme" = 2 ∧
      ∃ u s', Course.Reaches p (batchJobs ["a", "b", "a", "c"] o none) 2 beside
          (.start 4 s.world) u ∧
        ingestBatch p ["a", "b", "a", "c"] o none (some 2) none s =
          (.ok (u.report ["a", "b", "a", "c"]), s') ∧
        s'.world = u.world ∧ u.Accounts p ["a", "b", "a", "c"] "acme" s.world := by
  intro loader chunker route x p o registry s beside
  have hheld : p.Holds (fun m : Memory => m) := by
    refine ⟨fun _ _ => rfl, fun uri m => ?_, fun _ _ => rfl, fun _ _ text m => ?_,
      Version.keeps_list (fun _ _ => rfl) _⟩
    · dsimp only [p, Pipeline.ofIndexer, loader]
      split <;> rfl
    · dsimp only [p, Pipeline.ofIndexer, chunker]
      split <;> rfl
  have hquiet : s.worker.asleep = [] := rfl
  have hpermits : batchPermits (some 2) none = .ok 2 := rfl
  have haccounts := batch_accounts p ["a", "b", "a", "c"] o none hpermits hheld
    (fun w w' (h : beside w w') => h) hquiet
  exact ⟨hpermits, hheld, hquiet, by decide +kernel, haccounts.2⟩

end Retrieval
