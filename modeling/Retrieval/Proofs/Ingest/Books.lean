import Retrieval.Ingest.Pipeline
import Retrieval.Proofs.Effect.Keeping

/-!
# What the steps of a document do to the books

The registered tenants and their usage are the books that quotas are checked against. A document
looks at them once, before it is loaded, and writes to them once, in its last step; no step in
between touches them, whatever the loader, the extractor, the embedder and the store do.
-/

namespace Retrieval

namespace World

variable {σ α : Type}

def books (w : World σ) : Registry × Ledger := (w.registry, w.ledger)

def documents (w : World σ) (tenant : String) : Int := (w.ledger.usage tenant).documents

theorem keeps_onOutside (a : Action σ α) : (onOutside a).Keeps books := fun _ => rfl

theorem documents_congr {w w' : World σ} (h : w'.books = w.books) (tenant : String) :
    w'.documents tenant = w.documents tenant := by
  unfold documents
  rw [(Prod.mk.inj h).2]

end World

namespace Stage

def options? : Stage → Option IndexOptions
  | .queued | .done _ => none
  | .loading o _ | .loaded o _ | .prepared o _ _ | .indexed o _ _ => some o

/-- The document is on its way for a tenant, or for nobody. -/
def IsFor (tenant : String) (s : Stage) : Prop := ∀ o, s.options? = some o → o.tenantId = tenant

theorem isFor_done (outcome : Outcome IndexReport) (tenant : String) :
    (done outcome).IsFor tenant := fun _ h => nomatch h

end Stage

namespace Pipeline

open Stage

variable {σ : Type} (p : Pipeline σ) (j : Job) (w : World σ)

theorem tenantId_assignVersion (o : IndexOptions) :
    (p.assignVersion o w).1.tenantId = o.tenantId := by
  unfold assignVersion
  split <;> rfl

theorem books_assignVersion (o : IndexOptions) : (p.assignVersion o w).2.books = w.books := by
  unfold assignVersion
  split <;> rfl

theorem books_noticeVersions (o : IndexOptions) : (p.noticeVersions o w).books = w.books := by
  unfold noticeVersions
  split <;> rfl

theorem admits_congr {w w' : World σ} (h : w'.books = w.books) (tenant : String) :
    p.admits tenant w' = p.admits tenant w := by
  obtain ⟨hr, hl⟩ := Prod.mk.inj h
  unfold admits
  rw [hr, hl]

/-- The first step leaves the books alone. A document is over with it, or it was admitted and is on
its way for the tenant of its job. -/
theorem start_cases :
    (p.start j w).2.books = w.books ∧
      ((∃ outcome, (p.start j w).1 = .done outcome) ∨
        p.admits j.options.tenantId w = true ∧ ∃ o seconds, (p.start j w).1 = .loading o seconds ∧
          o.tenantId = j.options.tenantId) := by
  unfold start
  cases hc : Tenant.checkId (some j.options.tenantId) with
  | error f => exact ⟨rfl, Or.inl ⟨_, rfl⟩⟩
  | ok tenant =>
      cases Tenant.eq_of_checkId hc
      have hbooks : (p.noticeVersions (p.assignVersion j.options w).1
          (p.assignVersion j.options w).2).books = w.books :=
        (p.books_noticeVersions _ _).trans (p.books_assignVersion w j.options)
      dsimp only
      split
      · rename_i hadmits
        rw [p.admits_congr hbooks] at hadmits
        exact ⟨hbooks, Or.inr ⟨hadmits, _, _, rfl, p.tenantId_assignVersion w j.options⟩⟩
      · exact ⟨hbooks, Or.inl ⟨_, rfl⟩⟩

theorem keeps_prepare (d : Document) : (p.prepare j d).Keeps World.books :=
  .bind (World.keeps_onOutside _) fun _ => .bind (Action.keeps_read _) fun _ =>
    .bind (World.keeps_onOutside _) fun _ => .bind (Action.keeps_change fun _ => rfl) fun _ =>
      Action.keeps_mapM (fun _ => .bind (Action.keeps_read _) fun _ => Action.keeps_lift _) _

theorem registry_record (o : IndexOptions) (d : Document) (r : IndexReport) :
    (p.record o d r w).registry = w.registry := by
  unfold record
  split <;> rfl

theorem documents_record_le (o : IndexOptions) (d : Document) (r : IndexReport) (tenant : String) :
    (p.record o d r w).documents tenant ≤
      w.documents tenant + if o.tenantId = tenant then 1 else 0 := by
  unfold record World.documents
  split
  · dsimp only
    rw [Ledger.recordDocument, Ledger.usage_set]
    split
    · rename_i h
      rw [h]
      exact Int.le_refl _
    · omega
  · split <;> omega

/-- A document goes on without touching the books, for the tenant of its job; or it is over with
this step, which records at most one document, for that tenant. -/
theorem advance_cases {s : Stage} (hs : s.IsFor j.options.tenantId) :
    (p.advance j s w).2.books = w.books ∧ (p.advance j s w).1.IsFor j.options.tenantId ∨
      (∃ outcome, (p.advance j s w).1 = .done outcome) ∧
        (p.advance j s w).2.registry = w.registry ∧
        ∀ t, (p.advance j s w).2.documents t ≤
          w.documents t + if j.options.tenantId = t then 1 else 0 := by
  cases s with
  | queued =>
      obtain ⟨hbooks, ⟨outcome, hdone⟩ | ⟨-, o, seconds, hloading, ho⟩⟩ := p.start_cases j w
      · left
        rw [advance, hdone]
        exact ⟨hbooks, isFor_done outcome _⟩
      · left
        rw [advance, hloading]
        refine ⟨hbooks, ?_⟩
        rintro _ ⟨⟩
        exact ho
  | loading o seconds =>
      have hbooks := World.keeps_onOutside (p.loader.receive j.uri) w
      left
      simp only [advance]
      rcases hr : World.onOutside (p.loader.receive j.uri) w with ⟨f | d, w'⟩ <;>
        rw [hr] at hbooks
      · exact ⟨hbooks, isFor_done _ _⟩
      · exact ⟨hbooks, hs⟩
  | loaded o d =>
      have hbooks := p.keeps_prepare j d w
      left
      simp only [advance]
      rcases hr : p.prepare j d w with ⟨f | chunks, w'⟩ <;> rw [hr] at hbooks
      · exact ⟨hbooks, isFor_done _ _⟩
      · exact ⟨hbooks, hs⟩
  | prepared o d chunks => exact Or.inl ⟨rfl, hs⟩
  | indexed o d report =>
      right
      refine ⟨⟨_, rfl⟩, p.registry_record w o d report, fun t => ?_⟩
      have h := p.documents_record_le w o d report t
      rwa [hs o rfl] at h
  | done outcome => exact Or.inl ⟨rfl, hs⟩

end Pipeline

end Retrieval
