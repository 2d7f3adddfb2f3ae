import Mathlib.Data.List.Nodup
import Retrieval.Proofs.Index.Indexing
import Retrieval.Proofs.Store.View

/-!
# What a failed call of the indexer leaves behind

Nothing is written before the last step, so a failed call leaves every store that keeps its contract
as it was, but for one case: an update removes old versions before it writes, and if the removal goes
through and the writing fails, the old versions are gone.
-/

namespace Retrieval

namespace Indexer

variable {ω : Type} {x : Indexer ω} {o : IndexOptions} {chunks : List Chunk} {w w' : ω}

theorem spares_prepare {v : x.store.View}
    (hr : ∀ tenant texts, v.Spares ((x.route.select tenant).embed texts)) (chunks : List Chunk)
    (o : IndexOptions) : v.Spares (x.prepare chunks o) := by
  refine .bind (.bind (VectorStore.View.spares_lift _) fun tenant => .bind (hr tenant _) ?_) ?_
  · intro vectors
    split
    · exact VectorStore.View.spares_pure vectors
    · exact VectorStore.View.spares_throw _
  · exact fun vectors => .bind (VectorStore.View.spares_read x.now) fun now =>
      .bind (VectorStore.View.spares_lift _) fun createdAt => VectorStore.View.spares_lift _

/-- A cleanup that went through: records were found, all of them stale, and they were removed. -/
structure Cleanup (x : Indexer ω) (v : x.store.View) (o : IndexOptions) (w w' : ω)
    (found : List Match) : Prop where
  removed : ∃ w₁ n,
    x.store.query (.listing o.staleFilter o.tenantId o.collection) w = (.ok found, w₁) ∧
    x.store.delete (found.map (·.record.id)) o.collection none w₁ = (.ok n, w')
  stale : ∀ r ∈ v.contents w (v.place o.collection), r.id ∈ found.map (·.record.id) →
    o.staleFilter.accepts r.fields = true
  contents : v.contents w' =
    withoutIds (v.contents w) (v.place o.collection) (found.map (·.record.id))

/-- A cleanup that does not go through does nothing. -/
theorem removeStale_cases (v : x.store.View) (h : v.kept w) (o : IndexOptions) :
    v.contents (x.removeStale o w).2 = v.contents w ∧ v.kept (x.removeStale o w).2 ∨
      ∃ found, x.Cleanup v o w (x.removeStale o w).2 found ∧ v.kept (x.removeStale o w).2 := by
  obtain ⟨hk, hsame⟩ := v.query h (.listing o.staleFilter o.tenantId o.collection)
  rw [removeStale]
  rcases hq : x.store.query (.listing o.staleFilter o.tenantId o.collection) w with ⟨f | found, w₁⟩
  · rw [hq] at hk hsame
    rw [Action.bind_error hq]
    exact Or.inl ⟨hsame, hk⟩
  · rw [hq] at hk hsame
    rw [Action.bind_ok hq]
    cases found with
    | nil => exact Or.inl ⟨hsame, hk⟩
    | cons m rest =>
        obtain ⟨hids, hlisted⟩ := v.listed h o.isWellFormed_staleFilter hq
        have hne : (m :: rest).map (·.record.id) ≠ [] := by simp
        simp only [List.isEmpty_cons, Bool.not_false, if_true, Action.snd_bind_pure]
        rcases hd : x.store.delete ((m :: rest).map (·.record.id)) o.collection none w₁ with
          ⟨f | n, w₂⟩
        · obtain ⟨hk', hsame'⟩ := v.delete_error hk hids hne hd
          rw [hd]
          exact Or.inl ⟨hsame'.trans hsame, hk'⟩
        · obtain ⟨hk', hgone⟩ := v.delete_ok hk hids hne hd
          rw [hd]
          refine Or.inr ⟨m :: rest, ⟨⟨w₁, n, hq, hd⟩, fun r hr hid => ?_, ?_⟩, hk'⟩
          · obtain ⟨y, hy, he⟩ := List.mem_map.1 hid
            obtain ⟨hmem, ha⟩ := hlisted y hy
            rwa [← List.inj_on_of_nodup_map (v.distinct h _) hmem hr he]
          · rw [hgone, hsame]

/-- The call was an update that removed the stale records and could then not write the new ones, and
`after` is what it left. -/
def LostStale (x : Indexer ω) (v : x.store.View) (chunks : List Chunk) (o : IndexOptions)
    (w after : ω) : Prop :=
  o.replaces = true ∧ ∃ records w₁ found w₂ f,
    x.prepare chunks o w = (.ok records, w₁) ∧ v.contents w₁ = v.contents w ∧
    x.Cleanup v o w₁ w₂ found ∧ x.store.upsert records o.collection w₂ = (.error f, after) ∧
    v.contents after = withoutIds (v.contents w) (v.place o.collection) (found.map (·.record.id))

theorem write_failed {v : x.store.View} {f : Fault} {after : ω}
    (hr : ∀ tenant texts, v.Spares ((x.route.select tenant).embed texts)) (hw : v.kept w)
    (hwrite : x.write chunks o w = (.error f, after)) :
    v.contents after = v.contents w ∨ x.LostStale v chunks o w after := by
  obtain ⟨hk, hsame⟩ := spares_prepare hr chunks o w hw
  rcases hp : x.prepare chunks o w with ⟨g | records, w₁⟩ <;> rw [hp] at hk hsame
  · rw [write_refused hp] at hwrite
    cases hwrite
    exact Or.inl hsame
  · dsimp only at hk hsame
    rw [write_eq, Action.bind_ok hp] at hwrite
    cases hrep : o.replaces with
    | false =>
        rw [hrep, if_neg Bool.false_ne_true] at hwrite
        exact Or.inl ((v.upsert_error hk (Action.bind_pure_eq_error hwrite)).trans hsame)
    | true =>
        rw [hrep, if_pos rfl, Action.bind_ok (Action.attempt_apply _ _)] at hwrite
        have hu := Action.bind_pure_eq_error hwrite
        rcases removeStale_cases v hk o with ⟨hcontents, hkept⟩ | ⟨found, hclean, hkept⟩
        · exact Or.inl (((v.upsert_error hkept hu).trans hcontents).trans hsame)
        · refine Or.inr ⟨hrep, records, w₁, found, _, f, hp, hsame, hclean, hu, ?_⟩
          rw [v.upsert_error hkept hu, hclean.contents, hsame]

/-- A failed call leaves the contents of the store as they were, or it was an update that had
removed the stale records and then could not write: in that case exactly these are missing. -/
theorem index_failed (v : x.store.View)
    (hr : ∀ tenant texts, v.Spares ((x.route.select tenant).embed texts)) (hw : v.kept w)
    (he : (x.index chunks o w).1.errors ≠ none) :
    (x.index chunks o w).1.vectorsCreated = 0 ∧
      (v.contents (x.index chunks o w).2 = v.contents w ∨
        x.LostStale v chunks o w (x.index chunks o w).2) := by
  have hc : chunks ≠ [] := by
    rintro rfl
    exact he rfl
  rw [index_eq x hc] at he ⊢
  rcases hwrite : x.write chunks o w with ⟨f | count, after⟩
  · exact ⟨rfl, write_failed hr hw hwrite⟩
  · rw [hwrite] at he
    exact absurd rfl he

theorem failed_update_loses_old_version :
    let full : Fault := { kind := .other "RuntimeError", message := "disk full" }
    let v := Memory.refusingView full "default"
    let route : Routing Memory := ⟨⟨"unit", fun texts => pure (texts.map fun _ => [1])⟩, []⟩
    let x : Indexer Memory := ⟨route, Memory.refusing full, fun _ => .epoch⟩
    let old : Record := ⟨"guide_v1_a", [1], "old", some [(Key.docId, .text "guide"),
      (Key.tenantId, .text "acme"), (Key.versionId, .text "v1")], none, none, none, none, none⟩
    let m := (Memory.empty "default").store [old] none
    let result := x.index [⟨"b", "new", 0, 3, none⟩]
      ⟨"acme", some "guide", some "v2", none, .update, true⟩ m
    v.kept m ∧ result.1 = ⟨1, 0, some ["disk full"]⟩ ∧
      v.contents m "default" = [old] ∧ v.contents result.2 "default" = [] :=
  ⟨⟨(Memory.kept_empty "default").store _ none, rfl⟩, rfl, rfl, rfl⟩

/-- The record of the old version is gone, that of another tenant is still there. -/
theorem index_failed_full_disk :
    let full : Fault := { kind := .other "RuntimeError", message := "disk full" }
    let v := Memory.refusingView full "default"
    let route : Routing Memory := ⟨⟨"unit", fun texts => pure (texts.map fun _ => [1])⟩, []⟩
    let x : Indexer Memory := ⟨route, Memory.refusing full, fun _ => .epoch⟩
    let record (id tenant : String) : Record := ⟨id, [1], id, some [(Key.docId, .text "guide"),
      (Key.tenantId, .text tenant), (Key.versionId, .text "v1")], none, none, none, none, none⟩
    let chunks : List Chunk := [⟨"b", "new", 0, 3, none⟩]
    let o : IndexOptions := ⟨"acme", some "guide", some "v2", none, .update, true⟩
    let m := (Memory.empty "default").store [record "old" "acme", record "other" "globex"] none
    let after := (x.index chunks o m).2
    v.kept m ∧ (x.index chunks o m).1.errors ≠ none ∧ (x.index chunks o m).1.vectorsCreated = 0 ∧
      (v.contents after = v.contents m ∨ x.LostStale v chunks o m after) ∧
      (v.contents m "default").map (·.id) = ["old", "other"] ∧
      (v.contents after "default").map (·.id) = ["other"] := by
  intro full v route x record chunks o m after
  have hkept : v.kept m := ⟨(Memory.kept_empty "default").store _ none, rfl⟩
  have hfailed : (x.index chunks o m).1.errors ≠ none := by decide +kernel
  obtain ⟨hcount, hcontents⟩ :=
    index_failed v (fun _ _ => VectorStore.View.spares_pure _) hkept hfailed
  exact ⟨hkept, hfailed, hcount, hcontents, rfl, by decide +kernel⟩

end Indexer

end Retrieval
