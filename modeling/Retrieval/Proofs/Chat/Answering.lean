import Retrieval.Chat.Service
import Retrieval.Proofs.Tenant.Accounting

/-!
# What one answer costs

A call that fails at any point records nothing, and one that returns records one request and what it
cost, all of it for the tenant that asked. The model is asked once at most, and not before the
tenant's quotas let the request pass and sources were looked for.
-/

namespace Retrieval

theorem World.onOutside_eq {σ α : Type} {a : Action σ α} {w : World σ} {o : Outcome α}
    {outside : σ} (h : a w.outside = (o, outside)) :
    World.onOutside a w = (o, { w with outside }) := by
  unfold World.onOutside Action.within
  rw [h]
  rfl

namespace Usage

theorem onDay_onDay (u : Usage) {first second : Nat} (h : first ≤ second) :
    (u.onDay first).onDay second = u.onDay second := by
  unfold onDay
  cases hlast : u.lastRequest with
  | none => simp only [hlast]
  | some last =>
      by_cases hfirst : last < first
      · have hsecond : last < second := by omega
        simp only [if_pos hfirst, if_pos hsecond]
        split
        · rfl
        · have hsame : first = second := by omega
          rw [hsame]
      · simp only [if_neg hfirst, hlast]

/-- What a check has dropped from the count the record would have dropped as well. -/
theorem addRequest_onDay (u : Usage) {checked seen : Nat} (h : checked ≤ seen)
    (dated : Nat) (tokens : Int) :
    (u.onDay checked).addRequest seen dated tokens = u.addRequest seen dated tokens := by
  unfold addRequest
  rw [onDay_onDay u h]

/-- Usage in which one request is counted that was not counted before. The count of an earlier day is
dropped first. -/
structure Counts (u : Usage) (seen dated : Nat) (tokens : Int) (u' : Usage) : Prop where
  requests : u'.requestsToday =
    (if u.lastRequest.any (· < seen) then 0 else u.requestsToday) + 1
  tokens : u'.tokens = u.tokens + tokens
  dated : u'.lastRequest = some dated
  documents : u'.documents = u.documents
  storageBytes : u'.storageBytes = u.storageBytes

theorem counts_addRequest (u : Usage) (seen dated : Nat) (tokens : Int) :
    u.Counts seen dated tokens (u.addRequest seen dated tokens) where
  requests := by rw [addRequest, requestsToday_onDay]
  tokens := by rw [addRequest, tokens_onDay]
  dated := rfl
  documents := documents_onDay u seen
  storageBytes := storageBytes_onDay u seen

theorem onDay_of_lt {u : Usage} {last today : Nat} (hlast : u.lastRequest = some last)
    (hlt : last < today) :
    u.onDay today = { u with requestsToday := 0, lastRequest := some today } := by
  rw [onDay_eq, if_pos (by simpa [hlast] using hlt)]

theorem onDay_cases (u : Usage) (today : Nat) : u.onDay today = u ∨
    ∃ last, u.lastRequest = some last ∧ last < today ∧
      u.onDay today = { u with requestsToday := 0, lastRequest := some today } := by
  by_cases hless : u.lastRequest.any (· < today) = true
  · obtain ⟨last, hlast, hlt⟩ := (Option.any_eq_true _ _).1 hless
    rw [decide_eq_true_eq] at hlt
    exact Or.inr ⟨last, hlast, hlt, onDay_of_lt hlast hlt⟩
  · exact Or.inl (by rw [onDay_eq, if_neg hless])

end Usage

theorem ChatRequest.estimateTokens_eq (r : ChatRequest) :
    r.estimateTokens = (r.messages.map (·.content.length)).sum / 4 := by
  rw [estimateTokens, List.sum_eq_foldl, List.foldl_map]

namespace ChatService

variable {σ : Type} {s : ChatService σ} {q : Inquiry} {w : World σ}

def today (s : ChatService σ) (outside : σ) : Nat := (s.now outside).day

def gate (s : ChatService σ) (q : Inquiry) (w : World σ) : Bool × Ledger :=
  w.ledger.canAsk w.registry q.tenant (s.today w.outside) q.request.estimateTokens

/-- A call gets as far as the model: its request passed and these findings are what it is grounded
in. -/
structure Asks (s : ChatService σ) (q : Inquiry) (w : World σ) (findings : Findings)
    (outside : σ) : Prop where
  allowed : (s.gate q w).1 = true
  found : ∃ question, q.question = .ok question ∧
    s.retriever.retrieve (q.search question) w.outside = (.ok findings, outside)

/-- There is one way to get there. -/
theorem Asks.unique {findings findings' : Findings} {outside outside' : σ}
    (h : s.Asks q w findings outside) (h' : s.Asks q w findings' outside') :
    findings = findings' ∧ outside = outside' := by
  obtain ⟨question, hquestion, hfound⟩ := h.found
  obtain ⟨question', hquestion', hfound'⟩ := h'.found
  rw [hquestion, Except.ok.injEq] at hquestion'
  rw [← hquestion', hfound, Prod.mk.injEq, Except.ok.injEq] at hfound'
  exact hfound'

inductive Course (s : ChatService σ) (q : Inquiry) (w : World σ) :
    Outcome ChatReply × World σ → Prop
  /-- The request is denied, there is no question, or nothing can be retrieved. -/
  | stopped {fault : Fault} {outside : σ} (hnone : ∀ findings o, ¬ s.Asks q w findings o)
      (h : outside = w.outside ∨
        ∃ search, outside = (s.retriever.retrieve search w.outside).2) :
      Course s q w (.error fault, { w with ledger := (s.gate q w).2, outside })
  | failed {findings : Findings} {outside outside' : σ} {fault : Fault}
      (h : s.Asks q w findings outside)
      (hreply : s.model.complete (q.request.ground findings.sources) outside =
        (.error fault, outside')) :
      Course s q w (.error fault, { w with ledger := (s.gate q w).2, outside := outside' })
  | answered {findings : Findings} {outside outside' : σ} {reply : ChatReply}
      (h : s.Asks q w findings outside)
      (hreply : s.model.complete (q.request.ground findings.sources) outside =
        (.ok reply, outside')) :
      Course s q w (.ok reply,
        s.record q.tenant (reply.cost (q.request.ground findings.sources))
          { w with ledger := (s.gate q w).2, outside := outside' })

theorem course_of_asks {findings : Findings} {outside : σ} (h : s.Asks q w findings outside) :
    Course s q w ((do
      let reply ← World.onOutside (s.model.complete (q.request.ground findings.sources))
      Action.change (s.record q.tenant (reply.cost (q.request.ground findings.sources)))
      return reply : Action (World σ) ChatReply)
        { w with ledger := (s.gate q w).2, outside }) := by
  rcases hreply : s.model.complete (q.request.ground findings.sources) outside with
    ⟨fault | reply, outside'⟩
  · have hfail : World.onOutside (s.model.complete (q.request.ground findings.sources))
        { w with ledger := (s.gate q w).2, outside } =
          (.error fault, { w with ledger := (s.gate q w).2, outside := outside' }) :=
      World.onOutside_eq hreply
    rw [Action.bind_error hfail]
    exact .failed h hreply
  · have hok : World.onOutside (s.model.complete (q.request.ground findings.sources))
        { w with ledger := (s.gate q w).2, outside } =
          (.ok reply, { w with ledger := (s.gate q w).2, outside := outside' }) :=
      World.onOutside_eq hreply
    rw [Action.bind_ok hok]
    exact .answered h hreply

theorem course_answer (hlimited : s.limited = true) (q : Inquiry) (w : World σ) :
    Course s q w (s.answer q w) := by
  unfold answer
  have hallow : s.allow q w = if (s.gate q w).1 then (.ok (), { w with ledger := (s.gate q w).2 })
      else (.error (.fromProvider .quotaExceeded "quota"
        ("Chat quota exceeded for tenant '" ++ q.tenant ++ "'")),
          { w with ledger := (s.gate q w).2 }) := by
    unfold allow
    rw [if_pos hlimited]
    rfl
  by_cases hgate : (s.gate q w).1 = true
  · rw [if_pos hgate] at hallow
    rw [Action.bind_ok hallow]
    cases hquestion : q.question with
    | error fault =>
        refine .stopped (fun findings o hasks => ?_) (.inl rfl)
        obtain ⟨question, hthis, -⟩ := hasks.found
        rw [hquestion] at hthis
        cases hthis
    | ok question =>
        rw [Action.bind_ok (Action.lift_apply _ _)]
        rcases hfound : s.retriever.retrieve (q.search question) w.outside with
          ⟨fault | findings, outside⟩
        · have hsearch : World.onOutside (s.retriever.retrieve (q.search question))
              { w with ledger := (s.gate q w).2 } =
                (.error fault, { w with ledger := (s.gate q w).2, outside }) :=
            World.onOutside_eq hfound
          rw [Action.bind_error hsearch]
          refine .stopped (fun findings o hasks => ?_) (.inr ⟨_, (congrArg Prod.snd hfound).symm⟩)
          obtain ⟨question', hthis, hfindings⟩ := hasks.found
          rw [hquestion, Except.ok.injEq] at hthis
          rw [← hthis, hfound] at hfindings
          cases hfindings
        · have hsearch : World.onOutside (s.retriever.retrieve (q.search question))
              { w with ledger := (s.gate q w).2 } =
                (.ok findings, { w with ledger := (s.gate q w).2, outside }) :=
            World.onOutside_eq hfound
          rw [Action.bind_ok hsearch]
          exact course_of_asks ⟨hgate, question, hquestion, hfound⟩
  · rw [if_neg hgate] at hallow
    rw [Action.bind_error hallow]
    exact .stopped (fun findings o hasks => hgate hasks.allowed) (.inl rfl)

theorem record_eq (hlimited : s.limited = true) (tenant : String) (tokens : Int) (w : World σ) :
    s.record tenant tokens w = { w with
      outside := s.lapse w.outside
      ledger := w.ledger.recordRequest tenant (s.today w.outside) tokens
        (s.today (s.lapse w.outside)) } := by
  unfold record
  rw [if_pos hlimited]
  rfl

/-- The date never goes back, whatever the call does. -/
structure Timely (s : ChatService σ) : Prop where
  retrieve : ∀ search outside,
    s.today outside ≤ s.today (s.retriever.retrieve search outside).2
  complete : ∀ request outside, s.today outside ≤ s.today (s.model.complete request outside).2
  lapse : ∀ outside, s.today outside ≤ s.today (s.lapse outside)

/-- Something outside that tells the requests that the model was asked, and that nothing else
changes. -/
structure Hears (s : ChatService σ) (heard : σ → List ChatRequest) : Prop where
  retrieve : ∀ search outside, heard (s.retriever.retrieve search outside).2 = heard outside
  complete : ∀ request outside,
    heard (s.model.complete request outside).2 = heard outside ++ [request]
  lapse : ∀ outside, heard (s.lapse outside) = heard outside

/-- What a call leaves in the books. -/
structure Accounted (s : ChatService σ) (q : Inquiry) (w : World σ) (o : Outcome ChatReply)
    (w' : World σ) : Prop where
  /-- A call returns what the model replies, and fails where the model is not asked or fails. -/
  returns : ∀ reply, o = .ok reply ↔ ∃ findings outside, s.Asks q w findings outside ∧
    (s.model.complete (q.request.ground findings.sources) outside).1 = .ok reply
  others : ∀ other, other ≠ q.tenant → w'.ledger.usage other = w.ledger.usage other
  /-- A failed call records nothing, but it may have dropped the count of an earlier day. -/
  failed : ∀ fault, o = .error fault →
    w'.ledger.usage q.tenant = w.ledger.usage q.tenant ∨
      ∃ last, (w.ledger.usage q.tenant).lastRequest = some last ∧ last < s.today w.outside ∧
        w'.ledger.usage q.tenant = { w.ledger.usage q.tenant with
          requestsToday := 0, lastRequest := some (s.today w.outside) }
  /-- A reply is recorded as one request, with its tokens or, if it names none, one for each four
  characters of the request that was sent. -/
  answered : ∀ reply, o = .ok reply → ∃ findings outside seen,
    s.Asks q w findings outside ∧ s.today w.outside ≤ seen ∧ seen ≤ s.today w'.outside ∧
      (w.ledger.usage q.tenant).Counts seen (s.today w'.outside)
        (if reply.usageTokens = 0 then
          (((q.request.ground findings.sources).messages.map (·.content.length)).sum / 4 : Nat)
        else reply.usageTokens)
        (w'.ledger.usage q.tenant)
  /-- The model is asked once at most, and only with what was found for a request that passed. -/
  asked : ∀ heard, s.Hears heard → heard w'.outside = heard w.outside ∨
    ∃ findings outside, s.Asks q w findings outside ∧
      heard w'.outside = heard w.outside ++ [q.request.ground findings.sources]

theorem Asks.today_le (htime : s.Timely) {findings : Findings} {outside outside' : σ}
    {o : Outcome ChatReply} (h : s.Asks q w findings outside)
    (hreply : s.model.complete (q.request.ground findings.sources) outside = (o, outside')) :
    s.today w.outside ≤ s.today outside' := by
  obtain ⟨question, -, hfound⟩ := h.found
  have hsearch := htime.retrieve (q.search question) w.outside
  have hmodel := htime.complete (q.request.ground findings.sources) outside
  rw [hfound] at hsearch
  rw [hreply] at hmodel
  exact Nat.le_trans hsearch hmodel

theorem Asks.heard_eq {heard : σ → List ChatRequest} (hhears : s.Hears heard)
    {findings : Findings} {outside outside' : σ} {o : Outcome ChatReply}
    (h : s.Asks q w findings outside)
    (hreply : s.model.complete (q.request.ground findings.sources) outside = (o, outside')) :
    heard outside' = heard w.outside ++ [q.request.ground findings.sources] := by
  obtain ⟨question, -, hfound⟩ := h.found
  have hsearch := hhears.retrieve (q.search question) w.outside
  have hmodel := hhears.complete (q.request.ground findings.sources) outside
  rw [hfound] at hsearch
  rw [hreply, hsearch] at hmodel
  exact hmodel

namespace Course

variable {result : Outcome ChatReply × World σ}

theorem returns_iff (h : Course s q w result) (reply : ChatReply) : result.1 = .ok reply ↔
    ∃ findings outside, s.Asks q w findings outside ∧
      (s.model.complete (q.request.ground findings.sources) outside).1 = .ok reply := by
  cases h with
  | stopped hnone _ =>
      refine ⟨fun h => (nomatch h), ?_⟩
      rintro ⟨findings, outside, hasks, -⟩
      exact absurd hasks (hnone findings outside)
  | @failed findings outside outside' fault hasks hreply =>
      refine ⟨fun h => (nomatch h), ?_⟩
      rintro ⟨findings', o, hasks', hok⟩
      obtain ⟨rfl, rfl⟩ := hasks.unique hasks'
      rw [hreply] at hok
      cases hok
  | @answered findings outside outside' reply' hasks hreply =>
      refine ⟨fun h => ⟨findings, outside, hasks, ?_⟩, ?_⟩
      · rw [hreply]
        exact h
      · rintro ⟨findings', o, hasks', hok⟩
        obtain ⟨rfl, rfl⟩ := hasks.unique hasks'
        rw [hreply] at hok
        exact hok

theorem heard_cases (h : Course s q w result) (hlimited : s.limited = true)
    {heard : σ → List ChatRequest} (hhears : s.Hears heard) :
    heard result.2.outside = heard w.outside ∨
      ∃ findings outside, s.Asks q w findings outside ∧
        heard result.2.outside = heard w.outside ++ [q.request.ground findings.sources] := by
  cases h with
  | stopped _ houtside =>
      left
      rcases houtside with rfl | ⟨search, rfl⟩
      · rfl
      · exact hhears.retrieve search w.outside
  | failed hasks hreply => exact .inr ⟨_, _, hasks, hasks.heard_eq hhears hreply⟩
  | answered hasks hreply =>
      rw [record_eq hlimited]
      exact .inr ⟨_, _, hasks, (hhears.lapse _).trans (hasks.heard_eq hhears hreply)⟩

end Course

/-- Whatever the retriever and the model do, the call is accounted for. -/
theorem accounted_answer (hlimited : s.limited = true) (htime : s.Timely) (q : Inquiry)
    (w : World σ) : s.Accounted q w (s.answer q w).1 (s.answer q w).2 := by
  have hcourse := course_answer hlimited q w
  have hgate := w.ledger.usage_canAsk w.registry q.tenant (s.today w.outside)
    q.request.estimateTokens
  have hkept (other : String) (hother : other ≠ q.tenant) :
      (s.gate q w).2.usage other = w.ledger.usage other :=
    (hgate other).resolve_right fun h => hother h.1.symm
  have hown : (s.gate q w).2.usage q.tenant = w.ledger.usage q.tenant ∨
      (s.gate q w).2.usage q.tenant = (w.ledger.usage q.tenant).onDay (s.today w.outside) :=
    (hgate q.tenant).imp_right And.right
  have hdropped : (s.gate q w).2.usage q.tenant = w.ledger.usage q.tenant ∨
      ∃ last, (w.ledger.usage q.tenant).lastRequest = some last ∧ last < s.today w.outside ∧
        (s.gate q w).2.usage q.tenant = { w.ledger.usage q.tenant with
          requestsToday := 0, lastRequest := some (s.today w.outside) } := by
    rcases hown with hsame | hreset
    · exact Or.inl hsame
    · rw [hreset]
      exact Usage.onDay_cases _ _
  have hreturns := hcourse.returns_iff
  have hheard := fun heard (hhears : s.Hears heard) => hcourse.heard_cases hlimited hhears
  generalize s.answer q w = result at hcourse hreturns hheard ⊢
  cases hcourse with
  | stopped _ _ | failed _ _ =>
      exact ⟨hreturns, hkept, fun _ _ => hdropped, fun _ h => (nomatch h), hheard⟩
  | @answered findings outside outside' reply hasks hreply =>
      rw [record_eq hlimited] at hreturns hheard ⊢
      refine ⟨hreturns, fun other hother => ?_, fun _ h => (nomatch h), fun reply' h => ?_, hheard⟩
      · rw [Ledger.usage_recordRequest_of_ne (Ne.symm hother)]
        exact hkept other hother
      · cases h
        have hseen := hasks.today_le htime hreply
        refine ⟨findings, outside, s.today outside', hasks, hseen, htime.lapse outside', ?_⟩
        rw [← ChatRequest.estimateTokens_eq, Ledger.recordRequest, Ledger.usage_set, if_pos rfl]
        rcases hown with hsame | hreset
        · rw [hsame]
          exact Usage.counts_addRequest _ _ _ _
        · rw [hreset, Usage.addRequest_onDay _ hseen]
          exact Usage.counts_addRequest _ _ _ _

end ChatService

end Retrieval
