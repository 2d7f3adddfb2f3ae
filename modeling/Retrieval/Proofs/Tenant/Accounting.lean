import Mathlib.Algebra.Order.Ring.Int
import Mathlib.Data.List.Induction
import Retrieval.Tenant.Ledger

/-!
# The ledger and the log of what was recorded

A history is a sequence of calls of the ledger, each on the day it is made; a day may end while a
request is recorded. What the ledger answers can be read off the plain log of the documents and
requests recorded so far. The count of requests is brought up to date only when somebody looks at
it, so it belongs to the day it was last looked at: that day, the count and the log are tied
together by what every call preserves.
-/

namespace Retrieval

inductive LedgerCall
  | canIngest (tenant : String)
  | canAsk (tenant : String) (tokens : Int)
  | recordDocument (tenant : String) (bytes : Int)
  /-- The day under which a request is recorded is looked up last. -/
  | recordRequest (tenant : String) (dated : Nat) (tokens : Int)
  | usage (tenant : String)
deriving DecidableEq, Repr

/-- A recorded request: the day on which the call began, the day it is dated, and its tokens. -/
structure LoggedRequest where
  seen : Nat
  dated : Nat
  tokens : Int
deriving DecidableEq, Repr

namespace LedgerCall

def document? (tenant : String) : LedgerCall → Option Int
  | .recordDocument t bytes => if t = tenant then some bytes else none
  | _ => none

def request? (tenant : String) (day : Nat) : LedgerCall → Option LoggedRequest
  | .recordRequest t dated tokens => if t = tenant then some ⟨day, dated, tokens⟩ else none
  | _ => none

def lastDay (day : Nat) : LedgerCall → Nat
  | .recordRequest _ dated _ => dated
  | _ => day

theorem of_request? {tenant : String} {day : Nat} {c : LedgerCall} {r : LoggedRequest}
    (h : c.request? tenant day = some r) : r.seen = day ∧ r.dated = c.lastDay day := by
  cases c with
  | recordRequest t dated tokens =>
      rw [request?, Option.ite_none_right_eq_some] at h
      cases h.2
      exact ⟨rfl, rfl⟩
  | _ => cases h

end LedgerCall

/-- Calls in order, each with the number of the day on which it begins. -/
abbrev LedgerHistory := List (Nat × LedgerCall)

namespace LedgerHistory

/-- The clock never goes back to an earlier day, neither in a call nor between two. -/
structure InOrder (history : LedgerHistory) : Prop where
  calls : ∀ c ∈ history, c.1 ≤ c.2.lastDay c.1
  between : history.Pairwise fun a b => a.2.lastDay a.1 ≤ b.1

def documents (history : LedgerHistory) (tenant : String) : List Int :=
  history.filterMap fun c => c.2.document? tenant

def requests (history : LedgerHistory) (tenant : String) : List LoggedRequest :=
  history.filterMap fun c => c.2.request? tenant c.1

def requestsOn (history : LedgerHistory) (tenant : String) (day : Nat) : Nat :=
  (history.requests tenant).countP (·.dated = day)

/-- No request of a tenant that is recorded under a day was begun before that day. -/
def Undivided (history : LedgerHistory) (tenant : String) (day : Nat) : Prop :=
  ∀ r ∈ history.requests tenant, r.dated = day → r.seen = day

theorem documents_concat (history : LedgerHistory) (c : Nat × LedgerCall) (tenant : String) :
    documents (history ++ [c]) tenant =
      history.documents tenant ++ (c.2.document? tenant).toList := by
  rw [documents, List.filterMap_append, documents]
  cases h : c.2.document? tenant <;> simp [h]

theorem requests_concat (history : LedgerHistory) (c : Nat × LedgerCall) (tenant : String) :
    requests (history ++ [c]) tenant =
      history.requests tenant ++ (c.2.request? tenant c.1).toList := by
  rw [requests, List.filterMap_append, requests]
  cases h : c.2.request? tenant c.1 <;> simp [h]

theorem InOrder.concat {history : LedgerHistory} {c : Nat × LedgerCall}
    (h : InOrder (history ++ [c])) : history.InOrder ∧ (∀ a ∈ history, a.2.lastDay a.1 ≤ c.1) ∧
      c.1 ≤ c.2.lastDay c.1 := by
  obtain ⟨hpast, -, hlast⟩ := List.pairwise_append.1 h.between
  exact ⟨⟨fun a ha => h.calls a (List.mem_append_left _ ha), hpast⟩,
    fun a ha => hlast a ha c (List.mem_singleton_self c),
    h.calls c (List.mem_append_right _ (List.mem_singleton_self c))⟩

end LedgerHistory

namespace LoggedRequest

variable {asked : List LoggedRequest} {day : Nat}

/-- The requests of a log that a record counts on: they go back as far as each record began on the
day under which the one before it was made. -/
def run (asked : List LoggedRequest) : Option Nat × Nat :=
  asked.foldl (fun t r => (some r.dated, if t.1 = some r.seen then t.2 + 1 else 1)) (none, 0)

def counted (asked : List LoggedRequest) (day : Nat) : Nat :=
  if (run asked).1 = some day then (run asked).2 else 0

theorem run_concat (asked : List LoggedRequest) (r : LoggedRequest) :
    run (asked ++ [r]) =
      (some r.dated, if (run asked).1 = some r.seen then (run asked).2 + 1 else 1) := by
  rw [run, List.foldl_append]
  rfl

structure InOrder (asked : List LoggedRequest) : Prop where
  calls : ∀ r ∈ asked, r.seen ≤ r.dated
  between : asked.Pairwise fun a b => a.dated ≤ b.seen

theorem inOrder_requests {history : LedgerHistory} (h : history.InOrder) (tenant : String) :
    InOrder (history.requests tenant) := by
  refine ⟨fun r hr => ?_, ?_⟩
  · obtain ⟨c, hc, hrequest⟩ := List.mem_filterMap.1 hr
    obtain ⟨hseen, hdated⟩ := LedgerCall.of_request? hrequest
    rw [hseen, hdated]
    exact h.calls c hc
  · refine List.pairwise_filterMap.2 (h.between.imp fun {a b} hab r hr r' hr' => ?_)
    rw [(LedgerCall.of_request? hr).2, (LedgerCall.of_request? hr').1]
    exact hab

theorem InOrder.dated_le (h : InOrder asked) {r : LoggedRequest} (hr : r ∈ asked) :
    ∃ last, (run asked).1 = some last ∧ r.dated ≤ last := by
  cases asked using List.reverseRecOn with
  | nil => cases hr
  | append_singleton past latest =>
      refine ⟨latest.dated, by rw [run_concat], ?_⟩
      rcases List.mem_append.1 hr with hr | hr
      · have := (List.pairwise_append.1 h.between).2.2 r hr latest (List.mem_singleton_self _)
        have := h.calls latest (List.mem_append_right _ (List.mem_singleton_self _))
        omega
      · rw [List.mem_singleton.1 hr]

theorem countP_eq_zero (h : ∀ r ∈ asked, r.dated < day) :
    asked.countP (·.dated = day) = 0 := by
  rw [List.countP_eq_zero]
  intro r hr
  have := h r hr
  rw [decide_eq_true_eq]
  omega

/-- What is counted on a day are its requests. There are more only if one of them was begun on an
earlier day, whose requests it counts on. -/
theorem InOrder.countP_le (h : InOrder asked) (hday : ∀ r ∈ asked, r.dated ≤ day) :
    asked.countP (·.dated = day) ≤ counted asked day ∧
      ((∀ r ∈ asked, r.dated = day → r.seen = day) →
        counted asked day = asked.countP (·.dated = day)) := by
  induction asked using List.reverseRecOn with
  | nil => exact ⟨Nat.le_refl 0, fun _ => rfl⟩
  | append_singleton past r ih =>
      obtain ⟨hpast, -, hbefore⟩ := List.pairwise_append.1 h.between
      have hr : r ∈ past ++ [r] := List.mem_append_right _ (List.mem_singleton_self r)
      have hspan := h.calls r hr
      have hle : ∀ a ∈ past, a.dated ≤ r.seen := fun a ha =>
        hbefore a ha r (List.mem_singleton_self r)
      have hcounted : counted (past ++ [r]) day = if r.dated = day then
          if (run past).1 = some r.seen then (run past).2 + 1 else 1 else 0 := by
        simp [counted, run_concat]
      rw [hcounted, List.countP_append, List.countP_singleton]
      by_cases hdated : r.dated = day
      · rw [if_pos hdated, if_pos (decide_eq_true hdated)]
        by_cases hseen : r.seen = day
        · -- the record counts on what was counted of this day
          obtain ⟨hcount, hsame⟩ :=
            ih ⟨fun a ha => h.calls a (List.mem_append_left _ ha), hpast⟩ (hseen ▸ hle)
          have hon : (if (run past).1 = some r.seen then (run past).2 + 1 else 1) =
              counted past day + 1 := by
            rw [counted, hseen]
            split <;> rfl
          rw [hon]
          exact ⟨Nat.succ_le_succ hcount, fun hall => congrArg (· + 1)
            (hsame fun a ha => hall a (List.mem_append_left _ ha))⟩
        · have hnone : past.countP (·.dated = day) = 0 := countP_eq_zero fun a ha => by
            have := hle a ha
            omega
          rw [hnone]
          refine ⟨?_, fun hall => absurd (hall r hr hdated) hseen⟩
          split <;> omega
      · have hnone : past.countP (·.dated = day) = 0 := countP_eq_zero fun a ha => by
          have := hle a ha
          have := hday r hr
          omega
        rw [if_neg hdated, if_neg (by simpa using hdated), hnone]
        exact ⟨Nat.le_refl 0, fun _ => rfl⟩

end LoggedRequest

open LoggedRequest in
/-- What usage owes to the documents and requests recorded up to a day. -/
structure Usage.Reflects (u : Usage) (day : Nat) (sizes : List Int)
    (asked : List LoggedRequest) : Prop where
  documents : u.documents = sizes.length
  storageBytes : u.storageBytes = sizes.sum
  tokens : u.tokens = (asked.map (·.tokens)).sum
  bound : ∀ d, (run asked).1 = some d → d ≤ day
  /-- Either nobody has looked since the last record, or the count was dropped on a later day. -/
  counts : u.lastRequest = (run asked).1 ∧ u.requestsToday = (run asked).2 ∨
    ∃ last, u.lastRequest = some last ∧ last ≤ day ∧ (∀ d, (run asked).1 = some d → d < last) ∧
      u.requestsToday = 0

namespace Usage

open LoggedRequest

variable {u : Usage} {day today : Nat} {sizes : List Int} {asked : List LoggedRequest}

theorem reflects_zero (day : Nat) : zero.Reflects day [] [] where
  documents := rfl
  storageBytes := rfl
  tokens := rfl
  bound _ h := nomatch h
  counts := Or.inl ⟨rfl, rfl⟩

theorem Reflects.later (h : u.Reflects day sizes asked) (hd : day ≤ today) :
    u.Reflects today sizes asked := by
  refine ⟨h.documents, h.storageBytes, h.tokens, fun d hrun => (h.bound d hrun).trans hd, ?_⟩
  rcases h.counts with hsame | ⟨last, hlast, hle, hafter, hzero⟩
  · exact Or.inl hsame
  · exact Or.inr ⟨last, hlast, hle.trans hd, hafter, hzero⟩

theorem Reflects.onDay (h : u.Reflects day sizes asked) (hd : day ≤ today) :
    (u.onDay today).Reflects today sizes asked := by
  have hlater := h.later hd
  rw [onDay_eq]
  split
  · next hless =>
    obtain ⟨last, hlast, hlt⟩ := (Option.any_eq_true _ _).1 hless
    rw [decide_eq_true_eq] at hlt
    refine ⟨h.documents, h.storageBytes, h.tokens, hlater.bound,
      Or.inr ⟨today, rfl, Nat.le_refl _, fun d hrun => ?_, rfl⟩⟩
    rcases h.counts with ⟨hsame, -⟩ | ⟨last', hlast', -, hafter, -⟩
    · obtain rfl := Option.some.inj (hlast.symm.trans (hsame.trans hrun))
      exact hlt
    · obtain rfl := Option.some.inj (hlast.symm.trans hlast')
      exact (hafter d hrun).trans hlt
  · exact hlater

/-- Once usage is looked at, it counts the requests of the day. -/
theorem Reflects.requestsToday_onDay (h : u.Reflects day sizes asked) (hd : day ≤ today) :
    (u.onDay today).requestsToday = counted asked today := by
  rw [Usage.requestsToday_onDay, counted]
  rcases h.counts with ⟨hlast, hcount⟩ | ⟨last, hlast, hle, hafter, hzero⟩
  · rw [hlast, hcount]
    cases hrun : (run asked).1 with
    | none =>
        cases asked using List.reverseRecOn with
        | nil => rfl
        | append_singleton past r =>
            rw [run_concat] at hrun
            cases hrun
    | some d =>
        have hbound := h.bound d hrun
        by_cases hsame : d = today
        · simp [hsame]
        · have hlt : d < today := by omega
          simp [hlt, hsame]
  · have hrun : (run asked).1 ≠ some today := fun hrun => by
      have := hafter today hrun
      omega
    rw [hzero, if_neg hrun]
    split <;> rfl

theorem Reflects.requestsToday_eq (h : u.Reflects day sizes asked) {last : Nat}
    (hlast : u.lastRequest = some last) : u.requestsToday = counted asked last := by
  rw [counted]
  rcases h.counts with ⟨hsame, hcount⟩ | ⟨last', hlast', -, hafter, hzero⟩
  · rw [if_pos (hsame.symm.trans hlast), hcount]
  · obtain rfl := Option.some.inj (hlast.symm.trans hlast')
    rw [if_neg fun hrun => Nat.lt_irrefl _ (hafter last hrun), hzero]
    rfl

theorem Reflects.dated_le (h : u.Reflects day sizes asked) (ho : InOrder asked) {last : Nat}
    (hlast : u.lastRequest = some last) : ∀ r ∈ asked, r.dated ≤ last := by
  intro r hr
  obtain ⟨d, hrun, hle⟩ := ho.dated_le hr
  rcases h.counts with ⟨hsame, -⟩ | ⟨last', hlast', -, hafter, -⟩
  · obtain rfl := Option.some.inj (hlast.symm.trans (hsame.trans hrun))
    exact hle
  · obtain rfl := Option.some.inj (hlast.symm.trans hlast')
    exact hle.trans (hafter d hrun).le

theorem Reflects.addDocument (h : u.Reflects day sizes asked) (bytes : Int) :
    (u.addDocument bytes).Reflects day (sizes ++ [bytes]) asked where
  documents := by simp [Usage.addDocument, h.documents]
  storageBytes := by simp [Usage.addDocument, h.storageBytes]
  tokens := h.tokens
  bound := h.bound
  counts := h.counts

theorem Reflects.addRequest (h : u.Reflects day sizes asked) {seen dated : Nat} (hd : day ≤ seen)
    (tokens : Int) : (u.addRequest seen dated tokens).Reflects dated sizes
      (asked ++ [⟨seen, dated, tokens⟩]) where
  documents := by simp [Usage.addRequest, h.documents]
  storageBytes := by simp [Usage.addRequest, h.storageBytes]
  tokens := by simp [Usage.addRequest, h.tokens]
  bound d hrun := by
    rw [run_concat] at hrun
    exact (Option.some.inj hrun).ge
  counts := by
    refine Or.inl ⟨by rw [run_concat]; rfl, ?_⟩
    have hcount : (u.addRequest seen dated tokens).requestsToday =
        (u.onDay seen).requestsToday + 1 := rfl
    rw [hcount, h.requestsToday_onDay hd, run_concat, counted]
    dsimp only
    split <;> rfl

end Usage

namespace Ledger

open LedgerHistory

def after (registry : Registry) (l : Ledger) (c : Nat × LedgerCall) : Ledger :=
  match c.2 with
  | .canIngest _ => l
  | .canAsk tenant tokens => (l.canAsk registry tenant c.1 tokens).2
  | .recordDocument tenant bytes => l.recordDocument tenant bytes
  | .recordRequest tenant dated tokens => l.recordRequest tenant c.1 tokens dated
  | .usage _ => l

def replay (registry : Registry) (history : LedgerHistory) : Ledger :=
  history.foldl (after registry) []

/-- A check may bring the count of requests up to date, for the tenant it is about. -/
theorem usage_canAsk (l : Ledger) (registry : Registry) (tenant : String) (today : Nat)
    (tokens : Int) (other : String) :
    (l.canAsk registry tenant today tokens).2.usage other = l.usage other ∨
      tenant = other ∧
        (l.canAsk registry tenant today tokens).2.usage other = (l.usage other).onDay today := by
  unfold canAsk
  split
  · exact Or.inl rfl
  · split
    · exact Or.inl rfl
    · split
      · by_cases h : tenant = other
        · right
          refine ⟨h, ?_⟩
          simp only [usage_set, if_pos h]
          rw [h]
        · left
          simp only [usage_set, if_neg h]
      · exact Or.inl rfl

theorem reflects_after {l : Ledger} {day : Nat} {tenant : String} {sizes : List Int}
    {asked : List LoggedRequest} (registry : Registry) (c : Nat × LedgerCall)
    (h : (l.usage tenant).Reflects day sizes asked) (hd : day ≤ c.1)
    (hc : c.1 ≤ c.2.lastDay c.1) :
    ((after registry l c).usage tenant).Reflects (c.2.lastDay c.1)
      (sizes ++ (c.2.document? tenant).toList) (asked ++ (c.2.request? tenant c.1).toList) := by
  obtain ⟨today, call⟩ := c
  cases call with
  | canIngest t =>
      simpa [after, LedgerCall.document?, LedgerCall.request?, LedgerCall.lastDay] using h.later hd
  | canAsk t tokens =>
      simp only [after, LedgerCall.document?, LedgerCall.request?, LedgerCall.lastDay,
        Option.toList_none, List.append_nil]
      rcases usage_canAsk l registry t today tokens tenant with he | ⟨_, he⟩
      · rw [he]
        exact h.later hd
      · rw [he]
        exact h.onDay hd
  | recordDocument t bytes =>
      by_cases ht : t = tenant
      · subst ht
        simpa [after, LedgerCall.document?, LedgerCall.request?, LedgerCall.lastDay,
          recordDocument, usage_set] using (h.addDocument bytes).later hd
      · simpa [after, LedgerCall.document?, LedgerCall.request?, LedgerCall.lastDay, ht,
          usage_recordDocument_of_ne ht] using h.later hd
  | recordRequest t dated tokens =>
      by_cases ht : t = tenant
      · subst ht
        simpa [after, LedgerCall.document?, LedgerCall.request?, LedgerCall.lastDay,
          recordRequest, usage_set] using h.addRequest hd tokens
      · simpa [after, LedgerCall.document?, LedgerCall.request?, LedgerCall.lastDay, ht,
          usage_recordRequest_of_ne ht] using h.later (Nat.le_trans hd hc)
  | usage t =>
      simpa [after, LedgerCall.document?, LedgerCall.request?, LedgerCall.lastDay] using h.later hd

/-- After any history the usage of a tenant is what the log of the tenant says. -/
theorem reflects_replay (registry : Registry) (tenant : String) {history : LedgerHistory}
    {day : Nat} (h : history.InOrder) (hd : ∀ c ∈ history, c.2.lastDay c.1 ≤ day) :
    ((replay registry history).usage tenant).Reflects day (history.documents tenant)
      (history.requests tenant) := by
  -- Along the past the invariant holds at the day of the next call, and is then taken to `day`.
  induction history using List.reverseRecOn generalizing day with
  | nil => exact Usage.reflects_zero day
  | append_singleton past c ih =>
      obtain ⟨hpast, hle, hc⟩ := h.concat
      have hday := hd c (List.mem_append_right _ (List.mem_singleton_self c))
      rw [replay, List.foldl_append, documents_concat, requests_concat]
      exact (reflects_after registry c (ih hpast hle) (Nat.le_refl _) hc).later hday

theorem isBelow_iff {amount : Int} {limit : Option Int} :
    isBelow amount limit = true ↔ ∀ n, limit = some n → amount < n := by
  cases limit <;> simp [isBelow]

theorem isWithin_iff {amount : Int} {limit : Option Int} :
    isWithin amount limit = true ↔ ∀ n, limit = some n → amount ≤ n := by
  cases limit <;> simp [isWithin]

theorem canIngest_iff {l : Ledger} {registry : Registry} {tenant : String} :
    l.canIngest registry tenant = true ↔ ∃ t, registry.get? tenant = some t ∧
      ∀ q, t.quotas = some q →
        (∀ n, q.maxDocuments = some n → (l.usage tenant).documents < n) ∧
          ∀ n, q.maxStorageBytes = some n → (l.usage tenant).storageBytes < n := by
  unfold canIngest
  cases registry.get? tenant with
  | none => simp
  | some t =>
      cases hq : t.quotas with
      | none => simp [hq]
      | some q => simp [hq, Quotas.admitsDocument, isBelow_iff]

theorem canAsk_iff {l : Ledger} {registry : Registry} {tenant : String} {today : Nat}
    {tokens : Int} :
    (l.canAsk registry tenant today tokens).1 = true ↔ ∃ t, registry.get? tenant = some t ∧
      ∀ q, t.quotas = some q →
        (∀ n, q.maxTokensPerRequest = some n → tokens ≤ n) ∧
          ∀ n, q.maxRequestsPerDay = some n → ((l.usage tenant).onDay today).requestsToday < n := by
  unfold canAsk
  cases hr : registry.get? tenant with
  | none => simp
  | some t =>
      cases hq : t.quotas with
      | none => simp [hq]
      | some q =>
          have hw : q.admitsTokens tokens = true ↔
              ∀ n, q.maxTokensPerRequest = some n → tokens ≤ n := isWithin_iff
          by_cases h : q.admitsTokens tokens = true
          · simpa [hq, h, Quotas.admitsRequest, isBelow_iff] using fun _ => hw.1 h
          · simpa [hq, h] using fun hall => absurd (hw.2 hall) h

section Congr

variable {l l' : Ledger} {registry : Registry} {tenant : String}

theorem canIngest_congr (hdocuments : (l'.usage tenant).documents = (l.usage tenant).documents)
    (hbytes : (l'.usage tenant).storageBytes = (l.usage tenant).storageBytes) :
    l'.canIngest registry tenant = l.canIngest registry tenant := by
  rw [Bool.eq_iff_iff, canIngest_iff, canIngest_iff, hdocuments, hbytes]

theorem canAsk_congr {today : Nat} (h : ((l'.usage tenant).onDay today).requestsToday =
    ((l.usage tenant).onDay today).requestsToday) (tokens : Int) :
    (l'.canAsk registry tenant today tokens).1 = (l.canAsk registry tenant today tokens).1 := by
  rw [Bool.eq_iff_iff, canAsk_iff, canAsk_iff, h]

end Congr

/-- What the ledger answers about a tenant after a history is what the log of the tenant's documents
and requests says: a request is let through only if fewer requests than the limit were recorded under
the day, and exactly then if none of those was begun on an earlier day. So checks, snapshots and the
calls of other tenants leave no trace in the answers: after any other history with this log they are
the same. -/
theorem answers_read_off_log (registry : Registry) (tenant : String) {history : LedgerHistory}
    {day : Nat} (h : history.InOrder) (hd : ∀ c ∈ history, c.2.lastDay c.1 ≤ day) :
    let l := replay registry history
    (l.canIngest registry tenant = true ↔ ∃ t, registry.get? tenant = some t ∧
      ∀ q, t.quotas = some q →
        (∀ n, q.maxDocuments = some n → (history.documents tenant).length < n) ∧
          ∀ n, q.maxStorageBytes = some n → (history.documents tenant).sum < n) ∧
    (∀ tokens, (l.canAsk registry tenant day tokens).1 = true →
      ∃ t, registry.get? tenant = some t ∧ ∀ q, t.quotas = some q →
        (∀ n, q.maxTokensPerRequest = some n → tokens ≤ n) ∧
          ∀ n, q.maxRequestsPerDay = some n → history.requestsOn tenant day < n) ∧
    (history.Undivided tenant day → ∀ tokens,
      (l.canAsk registry tenant day tokens).1 = true ↔
        ∃ t, registry.get? tenant = some t ∧ ∀ q, t.quotas = some q →
          (∀ n, q.maxTokensPerRequest = some n → tokens ≤ n) ∧
            ∀ n, q.maxRequestsPerDay = some n → history.requestsOn tenant day < n) ∧
    ((l.usage tenant).documents = (history.documents tenant).length ∧
      (l.usage tenant).storageBytes = (history.documents tenant).sum ∧
      (l.usage tenant).tokens = ((history.requests tenant).map (·.tokens)).sum ∧
      ∀ last, (l.usage tenant).lastRequest = some last → history.Undivided tenant last →
        (l.usage tenant).requestsToday = history.requestsOn tenant last) ∧
    ∀ other : LedgerHistory, other.InOrder → (∀ c ∈ other, c.2.lastDay c.1 ≤ day) →
      other.documents tenant = history.documents tenant →
      other.requests tenant = history.requests tenant →
      let l' := replay registry other
      l'.canIngest registry tenant = l.canIngest registry tenant ∧
        (∀ tokens, (l'.canAsk registry tenant day tokens).1 =
          (l.canAsk registry tenant day tokens).1) ∧
        (l'.usage tenant).documents = (l.usage tenant).documents ∧
        (l'.usage tenant).storageBytes = (l.usage tenant).storageBytes ∧
        (l'.usage tenant).tokens = (l.usage tenant).tokens := by
  intro l
  have hl : (l.usage tenant).Reflects day _ _ := reflects_replay registry tenant h hd
  have horder := LoggedRequest.inOrder_requests h tenant
  have hask := hl.requestsToday_onDay (Nat.le_refl day)
  have hdated : ∀ r ∈ history.requests tenant, r.dated ≤ day := fun r hr => by
    obtain ⟨last, hrun, hle⟩ := horder.dated_le hr
    exact hle.trans (hl.bound last hrun)
  obtain ⟨hcount, hsame⟩ := horder.countP_le hdated
  refine ⟨?_, fun tokens hallowed => ?_, fun hundivided tokens => ?_,
    ⟨hl.documents, hl.storageBytes, hl.tokens, fun last hlast hundivided => ?_⟩, ?_⟩
  · rw [canIngest_iff, hl.documents, hl.storageBytes]
  · obtain ⟨t, ht, hquotas⟩ := canAsk_iff.1 hallowed
    refine ⟨t, ht, fun q hq => ⟨(hquotas q hq).1, fun n hn => ?_⟩⟩
    have hbelow := (hquotas q hq).2 n hn
    rw [hask] at hbelow
    rw [requestsOn]
    omega
  · rw [canAsk_iff, hask, hsame hundivided]
    rfl
  · rw [hl.requestsToday_eq hlast]
    exact congrArg Nat.cast
      ((horder.countP_le (hl.dated_le horder hlast)).2 hundivided)
  · intro other ho hod hdocuments hrequests l'
    have hl' : (l'.usage tenant).Reflects day _ _ := reflects_replay registry tenant ho hod
    have hask' := hl'.requestsToday_onDay (Nat.le_refl day)
    rw [hdocuments, hrequests] at hl'
    rw [hrequests] at hask'
    have hcounted := hl'.documents.trans hl.documents.symm
    have hstored := hl'.storageBytes.trans hl.storageBytes.symm
    exact ⟨canIngest_congr hcounted hstored, canAsk_congr (hask'.trans hask.symm), hcounted,
      hstored, hl'.tokens.trans hl.tokens.symm⟩

/-- Two requests used up the first day, and a check saw it; three days later there is room again. -/
theorem day_limit_lifts_on_later_day :
    let registry : Registry := .new false [⟨"acme", "Acme", some ⟨some 2, none, some 2, some 50⟩⟩]
    let history : LedgerHistory := [(1, .recordRequest "acme" 1 20),
      (1, .recordRequest "acme" 1 30), (1, .canAsk "acme" 10), (2, .recordRequest "globex" 3 5),
      (4, .recordDocument "acme" 40)]
    let l := replay registry history
    history.InOrder ∧ (∀ c ∈ history, c.2.lastDay c.1 ≤ 4) ∧ history.Undivided "acme" 4 ∧
      (l.canAsk registry "acme" 4 50).1 = true ∧
      l.canIngest registry "acme" = true ∧ (l.usage "acme").tokens = 50 := by
  intro registry history l
  have horder : history.InOrder := ⟨by decide, by decide⟩
  have hday : ∀ c ∈ history, c.2.lastDay c.1 ≤ 4 := by decide
  have hundivided : history.Undivided "acme" 4 := by
    unfold Undivided
    decide
  obtain ⟨hingest, -, hask, ⟨_, _, htokens, _⟩, _⟩ :=
    answers_read_off_log registry "acme" horder hday
  refine ⟨horder, hday, hundivided, (hask hundivided 50).2 ⟨_, rfl, ?_⟩, hingest.2 ⟨_, rfl, ?_⟩,
    htokens⟩
  · rintro _ ⟨⟩
    exact ⟨by rintro _ ⟨⟩; decide, by rintro _ ⟨⟩; decide⟩
  · rintro _ ⟨⟩
    exact ⟨by rintro _ ⟨⟩; decide, by rintro _ ⟨⟩⟩

/-- A check on the next day drops the count of a snapshot taken then. And a record that is begun on
the first day and dated with the second counts on with the first, so that the second has no room for
another request after one of its own. -/
theorem check_changes_later_snapshot :
    let registry : Registry := .new false [⟨"acme", "Acme", some ⟨none, none, some 2, none⟩⟩]
    let history : LedgerHistory := [(1, .recordRequest "acme" 1 10)]
    let checked : LedgerHistory := [(1, .recordRequest "acme" 1 10), (2, .canAsk "acme" 1)]
    let divided : LedgerHistory := [(1, .recordRequest "acme" 1 10), (1, .recordRequest "acme" 2 10)]
    (history.InOrder ∧ checked.InOrder ∧ divided.InOrder) ∧
      (replay registry history).usage "acme" = ⟨0, 0, 1, some 1, 10⟩ ∧
      (replay registry checked).usage "acme" = ⟨0, 0, 0, some 2, 10⟩ ∧
      divided.requestsOn "acme" 2 = 1 ∧
      ((replay registry divided).canAsk registry "acme" 2 1).1 = false :=
  ⟨⟨⟨by decide, by decide⟩, ⟨by decide, by decide⟩, ⟨by decide, by decide⟩⟩, by decide, by decide,
    by decide, by decide⟩

end Ledger

end Retrieval
