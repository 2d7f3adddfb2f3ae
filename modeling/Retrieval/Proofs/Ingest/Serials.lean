import Retrieval.Proofs.Ingest.Steps
import Retrieval.Proofs.Text.Serial

/-!
# The numbers of chunks and versions

Every chunk that is cut ends its id in the next number of the world, and so does every version that
is made. The numbers only grow.
-/

namespace Retrieval

open Text

theorem Chunk.ending_id_ofDraft (index serial : Nat) (d : Draft) :
    ending 32 (ofDraft index serial d).id = hexDigits 32 serial :=
  ending_hexDigits _ 32 serial

theorem Chunk.le_length_id_ofDraft (index serial : Nat) (d : Draft) :
    32 ≤ (ofDraft index serial d).id.toList.length := by
  simp [ofDraft, serialText]

theorem Chunk.endings_ofDrafts (index serial : Nat) (drafts : List Draft) :
    (ofDrafts index serial drafts).map (fun c => ending 32 c.id) =
      (List.range' serial drafts.length).map (hexDigits 32) := by
  induction drafts generalizing index serial with
  | nil => rfl
  | cons d later ih =>
      rw [ofDrafts, List.map_cons, ending_id_ofDraft, ih, List.length_cons, List.range'_succ,
        List.map_cons]

theorem Chunk.le_length_id_of_mem_ofDrafts {index serial : Nat} {drafts : List Draft} {c : Chunk}
    (h : c ∈ ofDrafts index serial drafts) : 32 ≤ c.id.toList.length := by
  induction drafts generalizing index serial with
  | nil => cases h
  | cons d later ih =>
      rcases List.mem_cons.1 h with rfl | h
      · exact le_length_id_ofDraft index serial d
      · exact ih h

theorem Chunk.drafts_of_cut {registry : StrategyRegistry} {options : ChunkOptions} {serial : Nat}
    {text : String} {masking : Sentence.Masking} {chunks : List Chunk}
    (h : cut registry options serial text masking = .ok chunks) :
    ∃ drafts, chunks = ofDrafts 0 serial drafts := by
  rw [cut] at h
  cases hs : registry.select options.strategy with
  | error f => rw [hs] at h; cases h
  | ok strategy =>
      rw [hs] at h
      exact ⟨_, (Except.ok.inj h).symm⟩

theorem Chunk.id_of_enrich {c enriched : Chunk} {d : Document} {now : Time.Moment}
    (h : c.enrich d now = .ok enriched) : enriched.id = c.id := by
  rw [enrich] at h
  cases hs : now.stored with
  | error f => rw [hs] at h; cases h
  | ok indexedAt =>
      rw [hs] at h
      cases h
      rfl

theorem Version.ending_newId (now : Time.Moment) (serial : Nat) :
    ending 8 (newId now serial) = hexDigits 8 serial :=
  ending_hexDigits _ 8 serial

theorem World.eq_of_onOutside {σ α : Type} {a : Action σ α} {w w' : World σ} {x : α}
    (h : onOutside a w = (.ok x, w')) :
    a w.outside = (.ok x, w'.outside) ∧ w' = w.withOutside w'.outside := by
  have houtside : ((a w.outside).1, w.withOutside (a w.outside).2) = (.ok x, w') := h
  obtain ⟨hx, rfl⟩ := Prod.mk.inj houtside
  exact ⟨Prod.ext hx rfl, rfl⟩

namespace Chunker

variable {σ : Type}

/-- Every chunk ends its id in a serial, counted from the one given on. -/
structure Numbers (c : Chunker σ) : Prop where
  endings : ∀ {options : ChunkOptions} {serial : Nat} {text : String} {chunks : List Chunk}
    {w w' : σ}, c.cut options serial text w = (.ok chunks, w') →
    chunks.map (fun c => ending 32 c.id) = (List.range' serial chunks.length).map (hexDigits 32)
  long : ∀ {options : ChunkOptions} {serial : Nat} {text : String} {chunks : List Chunk}
    {w w' : σ}, c.cut options serial text w = (.ok chunks, w') →
    ∀ c ∈ chunks, 32 ≤ c.id.toList.length

theorem numbers_ofStrategies (registry : StrategyRegistry) (masking : Sentence.Masking) :
    (ofStrategies registry masking : Chunker σ).Numbers where
  endings h := by
    obtain ⟨drafts, rfl⟩ := Chunk.drafts_of_cut (congrArg Prod.fst h)
    rw [Chunk.endings_ofDrafts, Chunk.length_ofDrafts]
  long h c hc := by
    obtain ⟨drafts, rfl⟩ := Chunk.drafts_of_cut (congrArg Prod.fst h)
    exact Chunk.le_length_id_of_mem_ofDrafts hc

end Chunker

namespace Pipeline

variable {σ : Type} {p : Pipeline σ} {j : Job} {w w' : World σ} {d : Document}
  {chunks : List Chunk} {s target : Stage}

theorem ids_enriched {now : World σ → Time.Moment} {cut : List Chunk}
    (h : (cut.mapM fun c => do c.enrich d (← Action.read now) : Action (World σ) (List Chunk)) w =
      (.ok chunks, w')) : chunks.map (·.id) = cut.map (·.id) ∧ w' = w := by
  induction cut generalizing chunks w' with
  | nil =>
      cases h
      exact ⟨rfl, rfl⟩
  | cons c later ih =>
      rw [List.mapM_cons] at h
      obtain ⟨enriched, w₁, hc, h⟩ := Action.bind_eq_ok.1 h
      obtain ⟨others, w₂, hlater, h⟩ := Action.bind_eq_ok.1 h
      obtain ⟨t, w₃, hread, henrich⟩ := Action.bind_eq_ok.1 hc
      cases hread
      cases h
      obtain ⟨hothers, rfl⟩ := Prod.mk.inj henrich
      obtain ⟨hids, rfl⟩ := ih hlater
      refine ⟨?_, rfl⟩
      rw [List.map_cons, List.map_cons, hids, Chunk.id_of_enrich hothers]

theorem prepare_numbers (hn : p.chunker.Numbers) (h : p.prepare j d w = (.ok chunks, w')) :
    w'.chunkSerial = w.chunkSerial + chunks.length ∧ w'.versionSerial = w.versionSerial ∧
      chunks.map (fun c => ending 32 c.id) =
        (List.range' w.chunkSerial chunks.length).map (hexDigits 32) ∧
      ∀ c ∈ chunks, 32 ≤ c.id.toList.length := by
  unfold prepare at h
  obtain ⟨text, w₁, htext, h⟩ := Action.bind_eq_ok.1 h
  obtain ⟨serial, w₂, hread, h⟩ := Action.bind_eq_ok.1 h
  obtain ⟨cut, w₃, hcut, h⟩ := Action.bind_eq_ok.1 h
  obtain ⟨_, w₄, hchange, h⟩ := Action.bind_eq_ok.1 h
  cases hread
  cases hchange
  obtain ⟨hids, rfl⟩ := ids_enriched h
  obtain ⟨-, hextracted⟩ := World.eq_of_onOutside htext
  obtain ⟨hchunks, hcounted⟩ := World.eq_of_onOutside hcut
  rw [hextracted] at hchunks hcounted
  have hcount : cut.length = chunks.length := by
    rw [← List.length_map (·.id), ← hids, List.length_map]
  have hendings : chunks.map (fun c => ending 32 c.id) = cut.map fun c => ending 32 c.id := by
    have hmap := congrArg (List.map (ending 32)) hids
    rwa [List.map_map, List.map_map] at hmap
  have hversion : w₃.versionSerial = w.versionSerial := by
    rw [hcounted]
    rfl
  refine ⟨?_, hversion, ?_, ?_⟩
  · show w₃.chunkSerial + cut.length = _
    rw [hcounted, hcount]
    rfl
  · rw [hendings, hn.endings hchunks, hcount]
    rfl
  · intro c hc
    have hid : c.id ∈ cut.map (·.id) := hids ▸ List.mem_map_of_mem hc
    obtain ⟨c', hc', he⟩ := List.mem_map.1 hid
    rw [← he]
    exact hn.long hchunks c' hc'

/-- Numbers that were given away are not taken back when chunks cannot be enriched. -/
theorem le_chunkSerial_prepare (p : Pipeline σ) (j : Job) (d : Document) (w : World σ) :
    w.chunkSerial ≤ (p.prepare j d w).2.chunkSerial := by
  have houtside {α : Type} (a : Action σ α) (w : World σ) :
      (World.onOutside a w).2.chunkSerial = w.chunkSerial := rfl
  have htold := houtside (p.extractor.extract d) w
  rw [prepare, Action.bind_apply]
  rcases htext : World.onOutside (p.extractor.extract d) w with ⟨f | text, w₁⟩ <;>
    rw [htext] at htold
  · exact htold.ge
  · dsimp only at htold ⊢
    have hcut := houtside
      (p.chunker.cut (j.chunking.getD .standard) w₁.chunkSerial text) w₁
    rw [Action.bind_ok (Action.read_apply _ _), Action.bind_apply]
    rcases hchunks : World.onOutside
      (p.chunker.cut (j.chunking.getD .standard) w₁.chunkSerial text) w₁ with ⟨f | cut, w₂⟩ <;>
      rw [hchunks] at hcut
    · exact (hcut.trans htold).ge
    · have hkept : Action.Keeps World.chunkSerial (cut.mapM fun c => do
          c.enrich d (← Action.read fun w => p.now w.outside) :
          Action (World σ) (List Chunk)) :=
        Action.keeps_mapM (fun _ => .bind (Action.keeps_read _) fun _ => Action.keeps_lift _) _
      have hchanged : Action.change (fun w : World σ =>
          { w with chunkSerial := w.chunkSerial + cut.length }) w₂ =
          (.ok (), { w₂ with chunkSerial := w₂.chunkSerial + cut.length }) := rfl
      dsimp only at hcut ⊢
      rw [Action.bind_ok hchanged, hkept, hcut, htold]
      exact Nat.le_add_right _ _

theorem keeps_versionSerial_prepare (p : Pipeline σ) (j : Job) (d : Document) :
    (p.prepare j d).Keeps World.versionSerial :=
  .bind (fun _ => rfl) fun _ => .bind (Action.keeps_read _) fun _ => .bind (fun _ => rfl) fun _ =>
    .bind (Action.keeps_change fun _ => rfl) fun _ =>
      Action.keeps_mapM (fun _ => .bind (Action.keeps_read _) fun _ => Action.keeps_lift _) _

def renews (p : Pipeline σ) (o : IndexOptions) : Bool :=
  p.versioned && (given o.docId).isSome && (given o.versionId).isNone

theorem assignVersion_of_renews {o : IndexOptions} (h : p.renews o = true) (w : World σ) :
    p.assignVersion o w =
      ({ o with versionId := some (Version.newId (p.now w.outside) w.versionSerial) },
        { w with versionSerial := w.versionSerial + 1 }) :=
  if_pos h

theorem assignVersion_of_not_renews {o : IndexOptions} (h : p.renews o = false) (w : World σ) :
    p.assignVersion o w = (o, w) :=
  if_neg (ne_true_of_eq_false h)

theorem serials_opened (p : Pipeline σ) (j : Job) (w : World σ) :
    (p.opened j w).chunkSerial = w.chunkSerial ∧ (p.opened j w).versionSerial =
      if p.renews j.options then w.versionSerial + 1 else w.versionSerial := by
  have hnotice (o : IndexOptions) (w : World σ) :
      (p.noticeVersions o w).chunkSerial = w.chunkSerial ∧
        (p.noticeVersions o w).versionSerial = w.versionSerial := by
    unfold noticeVersions
    split <;> exact ⟨rfl, rfl⟩
  rw [opened, (hnotice _ _).1, (hnotice _ _).2]
  by_cases h : p.renews j.options = true
  · rw [assignVersion_of_renews h, if_pos h]
    exact ⟨rfl, rfl⟩
  · rw [assignVersion_of_not_renews (Bool.eq_false_of_not_eq_true h), if_neg h]
    exact ⟨rfl, rfl⟩

theorem serials_record (p : Pipeline σ) (o : IndexOptions) (d : Document) (r : IndexReport)
    (w : World σ) : (p.record o d r w).chunkSerial = w.chunkSerial ∧
      (p.record o d r w).versionSerial = w.versionSerial := by
  unfold record
  split <;> exact ⟨rfl, rfl⟩

/-- No step takes a number back. -/
theorem Passes.serials (hp : p.Passes j w s target w') :
    w.chunkSerial ≤ w'.chunkSerial ∧ w.versionSerial ≤ w'.versionSerial := by
  have hopened : w.chunkSerial ≤ (p.opened j w).chunkSerial ∧
      w.versionSerial ≤ (p.opened j w).versionSerial := by
    rw [(p.serials_opened j w).1, (p.serials_opened j w).2]
    exact ⟨Nat.le_refl _, by split <;> omega⟩
  have hprepare (d : Document) : w.chunkSerial ≤ (p.prepare j d w).2.chunkSerial ∧
      w.versionSerial ≤ (p.prepare j d w).2.versionSerial :=
    ⟨p.le_chunkSerial_prepare j d w, (p.keeps_versionSerial_prepare j d w).ge⟩
  have hreceive : w.chunkSerial ≤ (World.onOutside (p.loader.receive j.uri) w).2.chunkSerial ∧
      w.versionSerial ≤ (World.onOutside (p.loader.receive j.uri) w).2.versionSerial :=
    ⟨Nat.le_refl _, Nat.le_refl _⟩
  cases hp with
  | refused bad => exact ⟨Nat.le_refl _, Nat.le_refl _⟩
  | denied full => exact hopened
  | asked valid => exact hopened
  | unloaded fails => rwa [fails] at hreceive
  | loaded loads => rwa [loads] at hreceive
  | @unprepared o d f w' fails =>
      have h := hprepare d
      rwa [fails] at h
  | @prepared o d chunks w' prepares =>
      have h := hprepare d
      rwa [prepares] at h
  | indexed o d chunks => exact ⟨Nat.le_refl _, Nat.le_refl _⟩
  | recorded o d r =>
      rw [(p.serials_record o d r w).1, (p.serials_record o d r w).2]
      exact ⟨Nat.le_refl _, Nat.le_refl _⟩

end Pipeline

end Retrieval
