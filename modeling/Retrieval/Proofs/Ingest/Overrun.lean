import Retrieval.Proofs.Ingest.Interleaving
import Retrieval.Proofs.Tenant.Accounting
import Retrieval.Store.Memory

/-!
# By how much a batch can overrun a quota

A document is admitted before it is loaded and counted once it is indexed, and no place is held for
it in between. So the documents on their way may all have been admitted for the same last place. Each
of them has a permit: a batch overruns a limit by less than the number of permits, whatever the
order of its steps, and with a single permit not at all.
-/

namespace Retrieval

def Registry.maxDocuments? (r : Registry) (tenant : String) : Option Int :=
  (r.get? tenant).bind fun t => t.quotas.bind (·.maxDocuments)

theorem World.maxDocuments?_congr {σ : Type} {w w' : World σ} (h : w'.books = w.books)
    (tenant : String) : w'.registry.maxDocuments? tenant = w.registry.maxDocuments? tenant := by
  rw [(Prod.mk.inj h).1]

namespace Pipeline

variable {σ : Type} {p : Pipeline σ}

theorem documents_lt_of_admits {w : World σ} {tenant : String} {most : Int}
    (hp : p.limited = true) (hmost : w.registry.maxDocuments? tenant = some most)
    (h : p.admits tenant w = true) : w.documents tenant < most := by
  rw [admits, hp, Bool.not_true, Bool.false_or, Ledger.canIngest_iff] at h
  obtain ⟨t, ht, hquotas⟩ := h
  rw [Registry.maxDocuments?, ht, Option.bind_some] at hmost
  obtain ⟨q, hq, hlimit⟩ := Option.bind_eq_some_iff.1 hmost
  exact (hquotas q hq).1 most hlimit

end Pipeline

namespace Underway

variable {σ : Type} {p : Pipeline σ} {permits : Nat} {tenant : String} {most : Int}
  {u u' : Underway σ}

/-- The documents of a tenant on their way, each of which may still be counted. -/
def goingFor (tenant : String) (going : Multiset (Job × Stage)) : Nat :=
  going.countP fun x => x.1.options.tenantId = tenant

theorem goingFor_cons (tenant : String) (j : Job) (s : Stage) (going : Multiset (Job × Stage)) :
    goingFor tenant ((j, s) ::ₘ going) =
      goingFor tenant going + if j.options.tenantId = tenant then 1 else 0 :=
  Multiset.countP_cons _ _ _

/-- What was counted for a tenant and what may still be counted is less than the limit and the
permits together. -/
structure Covered (permits : Nat) (tenant : String) (most : Int) (u : Underway σ) : Prop where
  limit : u.world.registry.maxDocuments? tenant = some most
  own : ∀ x ∈ u.going, x.2.IsFor x.1.options.tenantId
  documents : u.world.documents tenant + goingFor tenant u.going < most + permits

theorem Covered.begin (hp : p.limited = true) {w : World σ} {queued : Multiset Job}
    {going : Multiset (Job × Stage)} {j : Job} (free : going.card < permits)
    (h : Covered permits tenant most ⟨w, j ::ₘ queued, going⟩) :
    Covered permits tenant most (place queued going j (p.start j w)) := by
  obtain ⟨hlimit, hown, hdocuments⟩ := h
  obtain ⟨hbooks, hcases⟩ := p.start_cases j w
  rcases hs : p.start j w with ⟨stage, w'⟩
  rw [hs] at hbooks hcases
  have hlimit' := (World.maxDocuments?_congr hbooks tenant).trans hlimit
  have hsame : w'.documents tenant = w.documents tenant := World.documents_congr hbooks tenant
  rcases hcases with ⟨outcome, rfl⟩ | ⟨hadmits, o, seconds, rfl, ho⟩
  · rw [place_of_finished queued going j w' rfl]
    refine ⟨hlimit', hown, ?_⟩
    dsimp only at hdocuments ⊢
    rwa [hsame]
  · rw [place_of_unfinished queued going j w' rfl]
    refine ⟨hlimit', ?_, ?_⟩
    · refine Multiset.forall_mem_cons.2 ⟨?_, hown⟩
      rintro _ ⟨⟩
      exact ho
    -- An admitted document finds room below the limit, whoever else is on the way.
    · have hcard : goingFor tenant going ≤ going.card := Multiset.countP_le_card _ _
      dsimp only at hdocuments ⊢
      rw [hsame, goingFor_cons]
      split
      · rename_i htenant
        rw [htenant] at hadmits
        have hroom : w.documents tenant < most := Pipeline.documents_lt_of_admits hp hlimit hadmits
        omega
      · exact hdocuments

theorem Covered.advance {w : World σ} {queued : Multiset Job} {going : Multiset (Job × Stage)}
    {j : Job} {s : Stage} (h : Covered permits tenant most ⟨w, queued, (j, s) ::ₘ going⟩) :
    Covered permits tenant most (place queued going j (p.advance j s w)) := by
  obtain ⟨hlimit, hown, hdocuments⟩ := h
  obtain ⟨hj, hgoing⟩ := Multiset.forall_mem_cons.1 hown
  have hcases := p.advance_cases j w hj
  rcases hs : p.advance j s w with ⟨stage, w'⟩
  rw [hs] at hcases
  dsimp only at hdocuments hcases
  rw [goingFor_cons] at hdocuments
  rcases hcases with ⟨hbooks, hstage⟩ | ⟨⟨outcome, rfl⟩, hr, hcounted⟩
  · have hlimit' := (World.maxDocuments?_congr hbooks tenant).trans hlimit
    have hsame : w'.documents tenant = w.documents tenant := World.documents_congr hbooks tenant
    cases ho : stage.outcome? with
    | none =>
        rw [place_of_unfinished queued going j w' ho]
        refine ⟨hlimit', Multiset.forall_mem_cons.2 ⟨hstage, hgoing⟩, ?_⟩
        dsimp only
        rwa [hsame, goingFor_cons]
    | some outcome =>
        rw [place_of_finished queued going j w' ho]
        refine ⟨hlimit', hgoing, ?_⟩
        dsimp only
        omega
  · rw [place_of_finished queued going j w' rfl]
    refine ⟨(congrArg (·.maxDocuments? tenant) hr).trans hlimit, hgoing, ?_⟩
    have hone := hcounted tenant
    dsimp only
    by_cases ht : j.options.tenantId = tenant
    · rw [if_pos ht] at hone hdocuments
      omega
    · rw [if_neg ht] at hone hdocuments
      omega

theorem Covered.step (hp : p.limited = true) (h : Covered permits tenant most u)
    (hs : Step p permits u u') : Covered permits tenant most u' := by
  cases hs with
  | begin w queued going j free => exact h.begin hp free
  | advance w queued going j s => exact h.advance
  | elsewhere w w' queued going same =>
      refine ⟨(World.maxDocuments?_congr same tenant).trans h.limit, h.own, ?_⟩
      rw [World.documents_congr same]
      exact h.documents

/-- Every order of steps keeps what was counted and what may still be counted below the limit and
the permits together. -/
theorem Covered.reaches (hp : p.limited = true) (h : Covered permits tenant most u)
    (hr : Reaches p permits u u') : Covered permits tenant most u' := by
  induction hr with
  | refl => exact h
  | tail _ hs ih => exact ih.step hp hs

end Underway

namespace Site

variable {σ : Type} {p : Pipeline σ}

/-- A tenant that starts within its limit ends up beyond it by less than the permits of the batch:
in whatever order the documents take their steps, and so after the batch as it runs. -/
theorem documents_lt_of_batch (hp : p.limited = true) {s : Site σ} {tenant : String} {most : Int}
    (hmost : s.world.registry.maxDocuments? tenant = some most)
    (hstart : s.world.documents tenant ≤ most) (uris : List String) (o : IndexOptions)
    (chunking : Option ChunkOptions) {limit cores : Option Int} {permits : Nat}
    (hpermits : batchPermits limit cores = .ok permits) :
    (∀ u, Underway.Reaches p permits (.start (batchJobs uris o chunking) s.world) u →
      u.world.documents tenant < most + permits) ∧
    (s.worker.asleep = [] →
      (ingestBatch p uris o chunking limit cores s).2.world.documents tenant < most + permits) := by
  have hone : 1 ≤ permits := one_le_of_batchPermits hpermits
  have hall : ∀ u, Underway.Reaches p permits (.start (batchJobs uris o chunking) s.world) u →
      u.world.documents tenant < most + permits := by
    intro u hreach
    have hcovered : Underway.Covered permits tenant most
        (.start (batchJobs uris o chunking) s.world) := by
      refine ⟨hmost, fun x hx => absurd hx (Multiset.notMem_zero x), ?_⟩
      simp only [Underway.start, Underway.goingFor, Multiset.countP_zero]
      omega
    have hend := (hcovered.reaches hp hreach).documents
    omega
  refine ⟨hall, fun hquiet => ?_⟩
  obtain ⟨u, hreach, hworld⟩ := reaches_ingestBatch p uris o chunking hpermits hquiet
  rw [hworld]
  exact hall u hreach

/-- Two documents that are on their way together are both admitted for the only place there is. -/
theorem two_documents_overrun_limit_of_one :
    let loader : Loader Memory :=
      ⟨fun _ => true, fun _ => pure 1, fun uri => pure ⟨uri, [97], "text/plain", none⟩⟩
    let route : Routing Memory := ⟨⟨"unit", fun texts => pure (texts.map fun _ => [1])⟩, []⟩
    let x : Indexer Memory := ⟨route, Memory.backend, fun _ => .epoch⟩
    let p : Pipeline Memory := .ofIndexer loader .plain .standard x false true fun _ => .epoch
    let o : IndexOptions := ⟨"acme", none, none, none, .upsert, false⟩
    let registry : Registry := .new false [⟨"acme", "Acme", some ⟨some 1, none, none, none⟩⟩]
    let s : Site Memory := ⟨.new (.empty "default") registry, .new 100⟩
    p.limited = true ∧ s.world.registry.maxDocuments? "acme" = some 1 ∧
      s.world.documents "acme" = 0 ∧ batchPermits (some 2) none = .ok 2 ∧ s.worker.asleep = [] ∧
      (ingestBatch p ["a", "b"] o none (some 2) none s).2.world.documents "acme" = 2 :=
  ⟨rfl, rfl, rfl, rfl, rfl, by decide +kernel⟩

theorem one_permit_keeps_limit_of_one :
    let loader : Loader Memory :=
      ⟨fun _ => true, fun _ => pure 1, fun uri => pure ⟨uri, [97], "text/plain", none⟩⟩
    let route : Routing Memory := ⟨⟨"unit", fun texts => pure (texts.map fun _ => [1])⟩, []⟩
    let x : Indexer Memory := ⟨route, Memory.backend, fun _ => .epoch⟩
    let p : Pipeline Memory := .ofIndexer loader .plain .standard x false true fun _ => .epoch
    let o : IndexOptions := ⟨"acme", none, none, none, .upsert, false⟩
    let registry : Registry := .new false [⟨"acme", "Acme", some ⟨some 1, none, none, none⟩⟩]
    let s : Site Memory := ⟨.new (.empty "default") registry, .new 100⟩
    p.limited = true ∧ s.world.registry.maxDocuments? "acme" = some 1 ∧
      s.world.documents "acme" ≤ 1 ∧ batchPermits (some 1) none = .ok 1 ∧ s.worker.asleep = [] ∧
      (ingestBatch p ["a", "b"] o none (some 1) none s).2.world.documents "acme" < 1 + 1 := by
  intro loader route x p o registry s
  have hmost : s.world.registry.maxDocuments? "acme" = some 1 := rfl
  have hstart : s.world.documents "acme" ≤ 1 := by decide
  have hpermits : batchPermits (some 1) none = .ok 1 := rfl
  have hend := documents_lt_of_batch (p := p) rfl hmost hstart ["a", "b"] o none hpermits
  exact ⟨rfl, hmost, hstart, hpermits, rfl, hend.2 rfl⟩

end Site

end Retrieval
