import Retrieval.Proofs.Effect.Reading
import Retrieval.Proofs.Store.Ownership
import Retrieval.Search.Retriever
import Retrieval.Version.History

/-!
# Tenants do not see each other

A history of calls of the indexer is played on one store in memory. As long as no id is written for
two tenants, what a tenant finds afterwards, by search or by version, is what it would find had
only its own calls been made.
-/

namespace Retrieval

open Time

variable {ω : Type}

/-- The vectors, or the failure to make them, depend on the texts alone. -/
def Routing.IsFunction (route : Routing ω) : Prop :=
  ∀ tenant texts, ((route.select tenant).embed texts).Independent

structure Indexing where
  now : Moment
  chunks : List Chunk
  options : IndexOptions

namespace Indexing

variable {route : Routing Memory}

def indexer (route : Routing Memory) (c : Indexing) : Indexer Memory where
  route := route
  store := Memory.backend
  now := fun _ => c.now

def run (route : Routing Memory) (m : Memory) (c : Indexing) : Memory :=
  ((c.indexer route).index c.chunks c.options m).2

def replay (route : Routing Memory) (m : Memory) (history : List Indexing) : Memory :=
  history.foldl (run route) m

/-- The records a call writes, none if it fails before that. -/
def written (route : Routing Memory) (c : Indexing) : List Record :=
  ((c.indexer route).prepare c.chunks c.options default).1.toOption.getD []

theorem independent_prepare (hr : route.IsFunction) (c : Indexing) :
    ((c.indexer route).prepare c.chunks c.options).Independent := by
  refine .bind ?_ fun vectors => .bind (Action.independent_read c.now) fun now => ?_
  · refine .bind (Action.independent_lift _) fun tenant => .bind (hr tenant _) fun vectors => ?_
    split
    · exact Action.independent_pure _
    · exact Action.independent_throw _
  · exact .bind (Action.independent_lift _) fun _ => Action.independent_lift _

/-- A call either changes nothing, or it replaces what it has to and writes its records. -/
theorem run_cases (hr : route.IsFunction) (c : Indexing) :
    (∀ m, run route m c = m) ∨
      ∀ m, run route m c = (if c.options.replaces then m.purge c.options else m).store
        (c.written route) c.options.collection := by
  by_cases hc : c.chunks = []
  · refine Or.inl fun m => ?_
    simp [run, Indexer.index, hc]
  · obtain ⟨o, ho⟩ := independent_prepare hr c
    cases o with
    | error f =>
        refine Or.inl fun m => ?_
        rw [run, Indexer.index_eq _ hc, Indexer.write_refused (ho m)]
    | ok records =>
        refine Or.inr fun m => ?_
        have hw : c.written route = records := by
          rw [written, ho]
          rfl
        rw [run, Indexer.index_eq _ hc, Indexer.write_memory rfl (ho m), hw]

theorem eq_ofChunk_of_mem_written {c : Indexing} {r : Record} (h : r ∈ c.written route) :
    ∃ createdAt chunk vector, chunk ∈ c.chunks ∧
      r = Record.ofChunk c.options createdAt chunk vector := by
  rw [written] at h
  rcases hp : (c.indexer route).prepare c.chunks c.options default with ⟨f | records, m⟩
  · rw [hp] at h
    cases h
  · rw [hp] at h
    obtain ⟨createdAt, vectors, -, -, hr⟩ := Indexer.eq_ofChunks_of_prepare hp
    have hmem : r ∈ Record.ofChunks c.options createdAt c.chunks vectors := hr ▸ h
    obtain ⟨chunk, vector, hc, rfl⟩ := Record.exists_of_mem_ofChunks hmem
    exact ⟨createdAt, chunk, vector, hc, rfl⟩

def Writes (route : Routing Memory) (history : List Indexing) (tenant id : String) : Prop :=
  ∃ c ∈ history, c.options.tenantId = tenant ∧ ∃ r ∈ c.written route, r.id = id

theorem belong_written {history : List Indexing} {c : Indexing} (hc : c ∈ history) :
    Memory.Belong (Writes route history) c.options.tenantId (c.written route) := by
  intro r hr
  obtain ⟨createdAt, chunk, vector, _, rfl⟩ := eq_ofChunk_of_mem_written hr
  exact ⟨Record.get?_tenantId_ofChunk _ _ _ _, c, hc, rfl, _, hr, rfl⟩

variable {W : String → String → Prop} {m m' : Memory} {t : String} {c : Indexing}

theorem ownedBy_run (hr : route.IsFunction) (hm : m.OwnedBy W)
    (hc : Memory.Belong W c.options.tenantId (c.written route)) : (run route m c).OwnedBy W := by
  rcases run_cases hr c with h | h
  · rw [h]
    exact hm
  · rw [h]
    cases c.options.replaces with
    | false => exact hm.store hc _
    | true => exact (hm.purge _).store hc _

/-- A call for one tenant is not seen by another. -/
theorem agree_run_of_ne (hr : route.IsFunction) (hW : Memory.Exclusive W) (hm : m.OwnedBy W)
    (hc : Memory.Belong W c.options.tenantId (c.written route)) (hne : c.options.tenantId ≠ t) :
    Memory.Agree t (run route m c) m := by
  rcases run_cases hr c with h | h
  · rw [h]
    exact ⟨rfl, fun _ => rfl⟩
  · rw [h]
    cases c.options.replaces with
    | false => exact Memory.agree_store_of_ne hm hW hc hne _
    | true =>
        exact (Memory.agree_store_of_ne (hm.purge _) hW hc hne _).trans
          (Memory.agree_purge_of_ne hm hW hne)

/-- A call for a tenant does the same to stores that look the same to the tenant. -/
theorem agree_run (hr : route.IsFunction) (hW : Memory.Exclusive W) (h : Memory.Agree t m m')
    (hm : m.OwnedBy W) (hm' : m'.OwnedBy W)
    (hc : Memory.Belong W c.options.tenantId (c.written route)) (ht : c.options.tenantId = t) :
    Memory.Agree t (run route m c) (run route m' c) := by
  rcases run_cases hr c with hrun | hrun
  · rw [hrun, hrun]
    exact h
  · rw [hrun, hrun]
    rw [ht] at hc
    cases c.options.replaces with
    | false => exact h.store hm hm' hW hc _
    | true => exact (h.purge hm hm' hW ht).store (hm.purge _) (hm'.purge _) hW hc _

theorem agree_replay (hr : route.IsFunction) (hW : Memory.Exclusive W) (t : String)
    {history : List Indexing}
    (hc : ∀ c ∈ history, Memory.Belong W c.options.tenantId (c.written route))
    (h : Memory.Agree t m m') (hm : m.OwnedBy W) (hm' : m'.OwnedBy W) :
    Memory.Agree t (replay route m history)
      (replay route m' (history.filter fun c => c.options.tenantId = t)) := by
  induction history generalizing m m' with
  | nil => exact h
  | cons c later ih =>
      have hb := hc c List.mem_cons_self
      have hl := fun d hd => hc d (List.mem_cons_of_mem c hd)
      have hm₁ := ownedBy_run hr hm hb
      rw [List.filter_cons]
      by_cases ht : c.options.tenantId = t
      · rw [if_pos (by simpa using ht)]
        exact ih hl (agree_run hr hW h hm hm' hb ht) hm₁ (ownedBy_run hr hm' hb)
      · rw [if_neg (by simpa using ht)]
        exact ih hl ((agree_run_of_ne hr hW hm hb ht).trans h) hm₁ hm'

end Indexing

variable {m m' : Memory} {t : String}

theorem Memory.Agree.alike_query (h : Memory.Agree t m m') {q : Query}
    (hq : ∀ r : Record, r.inScope t = false → Memory.selects q.filter r = .ok false) :
    (Memory.backend.query q).Alike m m' :=
  ⟨m.search q, rfl, by rw [h.search_eq hq]; rfl⟩

/-- A filter that may not even be one is never asked about records of other tenants. -/
theorem Search.selects_scope (s : Search) {r : Record} (h : r.inScope s.tenant = false) :
    Memory.selects (some s.scope) r = .ok false := by
  have hs : (Filter.ofTenant s.tenant).evaluate r.fields = .ok false := by
    rw [Record.evaluate_ofTenant, h]
  cases hf : s.filter with
  | none => simp only [scope, hf, Memory.selects, hs]
  | some f => simp only [scope, hf, Memory.selects, Filter.evaluate, Filter.evaluateAll, hs]

theorem Version.selects_scope (tenant doc : String) (others : List Filter) {r : Record}
    (h : r.inScope tenant = false) :
    Memory.selects (some (.all (scope tenant doc ++ others))) r = .ok false := by
  have hdoc : (Filter.equals Key.docId (.text doc)).evaluate r.fields = .ok _ :=
    Filter.evaluate_eq_accepts rfl (Filter.isLegible_equals_text _ _ _)
  have htenant : (Filter.equals Key.tenantId (.text tenant)).evaluate r.fields = .ok false :=
    (Record.evaluate_ofTenant tenant r).trans (congrArg Except.ok h)
  simp only [Memory.selects, scope, List.cons_append, Filter.evaluate, Filter.evaluateAll, hdoc,
    htenant]
  split
  · rfl
  · next hother =>
      cases haccepts : (Filter.equals Key.docId (.text doc)).accepts r.fields with
      | false => rfl
      | true => exact absurd (congrArg Except.ok haccepts) hother

theorem Retriever.alike_retrieve {route : Routing Memory} (hr : route.IsFunction) (s : Search)
    (h : Memory.Agree s.tenant m m') :
    (Retriever.retrieve ⟨route, Memory.backend⟩ s).Alike m m' := by
  refine .bind ((Action.independent_lift _).alike m m') fun _ => .bind ?_ fun vector =>
    .bind (h.alike_query fun r => s.selects_scope) fun found =>
      .bind ((Action.independent_lift _).alike m m') fun sources =>
        (Action.independent_pure _).alike m m'
  refine .bind ((hr s.tenant _).alike m m') fun vectors => ?_
  cases vectors with
  | nil => exact (Action.independent_throw _).alike m m'
  | cons v _ => exact (Action.independent_pure v).alike m m'

theorem Version.alike_fetch (h : Memory.Agree t m m') (doc : String) (others : List Filter)
    (collection : Option String) :
    (fetch Memory.backend t (scope t doc ++ others) collection).Alike m m' :=
  .bind (h.alike_query fun _ => selects_scope t doc others) fun _ =>
    (Action.independent_pure _).alike m m'

theorem Version.alike_list (h : Memory.Agree t m m') (now : Moment) (doc : String)
    (collection : Option String) :
    (list Memory.backend (fun _ => now) t doc collection).Alike m m' := by
  refine Action.alike_bind_lift fun tenant ht => ?_
  obtain rfl := Tenant.eq_of_checkId ht
  have hf := alike_fetch h doc [] collection
  rw [List.append_nil] at hf
  refine .bind hf fun records => ?_
  split
  · exact .bind ((Action.independent_read now).alike m m') fun _ =>
      (Action.independent_pure _).alike m m'
  · exact (Action.independent_throw _).alike m m'

theorem Version.alike_find? (h : Memory.Agree t m m') (now : Moment) (doc version : String)
    (collection : Option String) :
    (find? Memory.backend (fun _ => now) t doc version collection).Alike m m' := by
  refine Action.alike_bind_lift fun tenant ht => ?_
  obtain rfl := Tenant.eq_of_checkId ht
  refine .bind (alike_fetch h doc _ collection) fun records => ?_
  cases records with
  | nil => exact (Action.independent_pure none).alike m m'
  | cons first others =>
      exact .bind ((Action.independent_read now).alike m m') fun _ =>
        (Action.independent_pure _).alike m m'

/-- What a tenant finds after a history is what it finds after its own calls of that history. -/
theorem finds_same_after_own_calls {route : Routing Memory} (hr : route.IsFunction)
    (standard : String) (history : List Indexing)
    (hids : ∀ c ∈ history, ∀ d ∈ history, ∀ r ∈ c.written route, ∀ s ∈ d.written route,
      r.id = s.id → c.options.tenantId = d.options.tenantId) (tenant : String) :
    let all := Indexing.replay route (.empty standard) history
    let own := Indexing.replay route (.empty standard)
      (history.filter fun c => c.options.tenantId = tenant)
    (∀ query topK filter collection,
      (Retriever.retrieve ⟨route, Memory.backend⟩ ⟨query, tenant, topK, filter, collection⟩ all).1 =
        (Retriever.retrieve ⟨route, Memory.backend⟩
          ⟨query, tenant, topK, filter, collection⟩ own).1) ∧
    (∀ now doc collection,
      (Version.list Memory.backend (fun _ => now) tenant doc collection all).1 =
        (Version.list Memory.backend (fun _ => now) tenant doc collection own).1) ∧
    ∀ now doc version collection,
      (Version.find? Memory.backend (fun _ => now) tenant doc version collection all).1 =
        (Version.find? Memory.backend (fun _ => now) tenant doc version collection own).1 := by
  have hW : Memory.Exclusive (Indexing.Writes route history) := by
    rintro u v id ⟨c, hc, rfl, r, hr, rfl⟩ ⟨d, hd, rfl, s, hs, he⟩
    exact hids c hc d hd r hr s hs he.symm
  have hempty : (Memory.empty standard).OwnedBy (Indexing.Writes route history) := by
    intro name id r h
    cases h
  have hagree : (Memory.empty standard).Agree tenant (.empty standard) := ⟨rfl, fun _ => rfl⟩
  have h := Indexing.agree_replay hr hW tenant (fun c hc => Indexing.belong_written hc) hagree
    hempty hempty
  exact ⟨fun query topK filter collection =>
      (Retriever.alike_retrieve hr ⟨query, tenant, topK, filter, collection⟩ h).fst_eq,
    fun now doc collection => (Version.alike_list h now doc collection).fst_eq,
    fun now doc version collection => (Version.alike_find? h now doc version collection).fst_eq⟩

/-- Two tenants use one document name, and both replace what was written before under it. -/
theorem acme_finds_same_without_globex :
    let route : Routing Memory := ⟨⟨"unit", fun texts => pure (texts.map fun _ => [1])⟩, []⟩
    let call (tenant chunk : String) : Indexing :=
      ⟨.epoch, [⟨chunk, chunk, 0, 1, none⟩], ⟨tenant, some "guide", none, none, .update, true⟩⟩
    ∀ query topK filter collection,
      (Retriever.retrieve ⟨route, Memory.backend⟩ ⟨query, "acme", topK, filter, collection⟩
        (Indexing.replay route (.empty "default")
          [call "acme" "a", call "globex" "b", call "acme" "c"])).1 =
      (Retriever.retrieve ⟨route, Memory.backend⟩ ⟨query, "acme", topK, filter, collection⟩
        (Indexing.replay route (.empty "default") [call "acme" "a", call "acme" "c"])).1 := by
  intro route call
  have hr : route.IsFunction := fun _ texts => Action.independent_pure _
  refine (finds_same_after_own_calls hr "default"
    [call "acme" "a", call "globex" "b", call "acme" "c"] ?_ "acme").1
  have hid (tenant chunk : String) (r : Record) (h : r ∈ (call tenant chunk).written route) :
      r.id = chunk := by
    obtain ⟨createdAt, c, v, hc, rfl⟩ := Indexing.eq_ofChunk_of_mem_written h
    rw [List.mem_singleton.1 hc]
    rfl
  intro c hc d hd r hr s hs he
  simp only [List.mem_cons, List.not_mem_nil, or_false] at hc hd
  rcases hc with rfl | rfl | rfl <;> rcases hd with rfl | rfl | rfl <;>
    first | rfl | exact absurd ((hid _ _ r hr).symm.trans (he.trans (hid _ _ s hs))) (by decide)

end Retrieval
