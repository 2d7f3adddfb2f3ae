import Retrieval.Proofs.Chat.Answering
import Retrieval.Proofs.Effect.Keeping

/-!
# The limit of a day

Calls are made one after the other, and midnight may come at any time, within a call as well. The
count that the ledger keeps is never less than the number of answers of the day it belongs to; since
a call is let through only below the limit, no day ever has more answers than the limit allows.
-/

namespace Retrieval

/-- A call, after something has happened outside. -/
structure Visit (σ : Type) where
  passing : σ → σ
  inquiry : Inquiry

namespace Usage

/-- Usage on a day that counts no less than the answers recorded so far, which are given by their
days. -/
structure Bounds (u : Usage) (day : Nat) (answers : List Nat) : Prop where
  nonneg : 0 ≤ u.requestsToday
  unasked : u.lastRequest = none → answers = []
  counted : ∀ last, u.lastRequest = some last →
    last ≤ day ∧ (∀ d ∈ answers, d ≤ last) ∧ (answers.count last : Int) ≤ u.requestsToday

namespace Bounds

variable {u : Usage} {day today : Nat} {answers : List Nat}

theorem zero (day : Nat) : zero.Bounds day [] where
  nonneg := Int.le_refl 0
  unasked _ := rfl
  counted _ h := nomatch h

theorem later (h : u.Bounds day answers) (hd : day ≤ today) : u.Bounds today answers where
  nonneg := h.nonneg
  unasked := h.unasked
  counted last hlast := (h.counted last hlast).imp_left fun hle => Nat.le_trans hle hd

theorem onDay (h : u.Bounds day answers) (hd : day ≤ today) :
    (u.onDay today).Bounds today answers := by
  unfold Usage.onDay
  cases hlast : u.lastRequest with
  | none => exact h.later hd
  | some last =>
      obtain ⟨hle, hall, -⟩ := h.counted last hlast
      by_cases hless : last < today
      · simp only [if_pos hless]
        refine ⟨Int.le_refl 0, fun hnone => (nomatch hnone), fun last' hlast' => ?_⟩
        obtain rfl := Option.some.inj hlast'
        have hbefore : ∀ d ∈ answers, d < today := fun d hd => Nat.lt_of_le_of_lt (hall d hd) hless
        have hnone : answers.count today = 0 :=
          List.count_eq_zero.2 fun hmem => Nat.lt_irrefl _ (hbefore _ hmem)
        exact ⟨Nat.le_refl _, fun d hd => Nat.le_of_lt (hbefore d hd),
          Int.ofNat_le.2 (Nat.le_of_eq hnone)⟩
      · simp only [if_neg hless]
        exact h.later hd

/-- What is counted on a day bounds the answers of this day and of any later one. -/
theorem count_le (h : u.Bounds day answers) {d : Nat} (hd : day ≤ d) :
    (answers.count d : Int) ≤ u.requestsToday := by
  cases hlast : u.lastRequest with
  | none =>
      rw [h.unasked hlast]
      exact h.nonneg
  | some last =>
      obtain ⟨hle, hall, hcount⟩ := h.counted last hlast
      by_cases hsame : d = last
      · rw [hsame]
        exact hcount
      · have hnone : answers.count d = 0 := List.count_eq_zero.2 fun hmem => by
          have := hall d hmem
          omega
        rw [hnone]
        exact h.nonneg

theorem le_day (h : u.Bounds day answers) : ∀ d ∈ answers, d ≤ day := by
  intro d hmem
  cases hlast : u.lastRequest with
  | none =>
      rw [h.unasked hlast] at hmem
      cases hmem
  | some last =>
      obtain ⟨hle, hall, -⟩ := h.counted last hlast
      exact Nat.le_trans (hall d hmem) hle

theorem counts (h : u.Bounds day answers) {u' : Usage} {seen dated : Nat} {tokens : Int}
    (hcounts : u.Counts seen dated tokens u') (hseen : day ≤ seen) (hdated : seen ≤ dated) :
    u'.Bounds dated (answers ++ [dated]) := by
  have hreset := h.onDay hseen
  have hcount := hreset.count_le hdated
  have hrequests : u'.requestsToday = (u.onDay seen).requestsToday + 1 := by
    rw [hcounts.requests, requestsToday_onDay]
  refine ⟨?_, fun hnone => ?_, fun last hlast => ?_⟩
  · rw [hrequests]
    exact Int.add_nonneg hreset.nonneg (by decide)
  · rw [hcounts.dated] at hnone
    cases hnone
  · obtain rfl := Option.some.inj (hcounts.dated.symm.trans hlast)
    refine ⟨Nat.le_refl _, fun d hmem => ?_, ?_⟩
    · rcases List.mem_append.1 hmem with hmem | hmem
      · exact Nat.le_trans (h.le_day d hmem) (Nat.le_trans hseen hdated)
      · exact Nat.le_of_eq (List.mem_singleton.1 hmem)
    · rw [hrequests, List.count_append, List.count_singleton_self]
      omega

end Bounds

end Usage

namespace ChatService

variable {σ : Type} {s : ChatService σ} {q : Inquiry} {w : World σ} {tenant : String}

def visit (s : ChatService σ) (v : Visit σ) (w : World σ) : Outcome ChatReply × World σ :=
  s.answer v.inquiry (w.withOutside (v.passing w.outside))

def dates (s : ChatService σ) (tenant : String) (q : Inquiry) :
    Outcome ChatReply × World σ → List Nat
  | (.ok _, w) => if q.tenant = tenant then [s.today w.outside] else []
  | (.error _, _) => []

/-- The days under which the answers to a tenant are recorded, in the order of the calls. -/
def recorded (s : ChatService σ) (tenant : String) : List (Visit σ) → World σ → List Nat
  | [], _ => []
  | v :: rest, w =>
      s.dates tenant v.inquiry (s.visit v w) ++ s.recorded tenant rest (s.visit v w).2

theorem registry_answer (hlimited : s.limited = true) (q : Inquiry) (w : World σ) :
    (s.answer q w).2.registry = w.registry := by
  have hcourse := course_answer hlimited q w
  generalize s.answer q w = result at hcourse ⊢
  cases hcourse with
  | stopped _ _ | failed _ _ => rfl
  | answered _ _ => rw [record_eq hlimited]

theorem today_answer_le (hlimited : s.limited = true) (htime : s.Timely) (q : Inquiry)
    (w : World σ) : s.today w.outside ≤ s.today (s.answer q w).2.outside := by
  have hcourse := course_answer hlimited q w
  generalize s.answer q w = result at hcourse ⊢
  cases hcourse with
  | stopped _ houtside =>
      rcases houtside with rfl | ⟨search, rfl⟩
      · exact Nat.le_refl _
      · exact htime.retrieve search w.outside
  | failed hasks hreply => exact hasks.today_le htime hreply
  | answered hasks hreply =>
      rw [record_eq hlimited]
      exact Nat.le_trans (hasks.today_le htime hreply) (htime.lapse _)

namespace Accounted

variable {o : Outcome ChatReply} {w' : World σ} {day : Nat} {answers : List Nat}

/-- After any call the count still bounds the answers, this one included. -/
theorem bounds (h : s.Accounted q w o w') (hlater : s.today w.outside ≤ s.today w'.outside)
    (hbounds : (w.ledger.usage tenant).Bounds (s.today w.outside) answers) :
    (w'.ledger.usage tenant).Bounds (s.today w'.outside)
      (answers ++ s.dates tenant q (o, w')) := by
  by_cases hother : q.tenant = tenant
  · subst hother
    cases o with
    | error fault =>
        rw [dates, List.append_nil]
        rcases h.failed fault rfl with hsame | ⟨last, hlast, hlt, hreset⟩
        · rw [hsame]
          exact hbounds.later hlater
        · rw [hreset, ← Usage.onDay_of_lt hlast hlt]
          exact (hbounds.onDay (Nat.le_refl _)).later hlater
    | ok reply =>
        obtain ⟨findings, outside, seen, -, hseen, hdated, hcounts⟩ := h.answered reply rfl
        rw [dates, if_pos rfl]
        exact hbounds.counts hcounts hseen hdated
  · have hnone : s.dates tenant q (o, w') = [] := by
      cases o with
      | error fault => rfl
      | ok reply => exact if_neg hother
    rw [hnone, List.append_nil, h.others tenant (Ne.symm hother)]
    exact hbounds.later hlater

theorem count_le (h : s.Accounted q w o w') (hlater : s.today w.outside ≤ s.today w'.outside)
    (hbounds : (w.ledger.usage tenant).Bounds (s.today w.outside) answers)
    {t : Tenant} {quotas : Quotas} {n : Int} (htenant : w.registry.get? tenant = some t)
    (hquotas : t.quotas = some quotas) (hlimit : quotas.maxRequestsPerDay = some n)
    (hcount : ∀ d, answers.count d ≤ n.toNat) (d : Nat) :
    (answers ++ s.dates tenant q (o, w')).count d ≤ n.toNat := by
  cases o with
  | error fault =>
      rw [dates, List.append_nil]
      exact hcount d
  | ok reply =>
      by_cases hthis : q.tenant = tenant ∧ s.today w'.outside = d
      · obtain ⟨rfl, rfl⟩ := hthis
        obtain ⟨findings, outside, seen, hasks, -⟩ := h.answered reply rfl
        obtain ⟨t', htenant', hallowed⟩ := Ledger.canAsk_iff.1 hasks.allowed
        obtain rfl := Option.some.inj (htenant.symm.trans htenant')
        have hbelow := (hallowed quotas hquotas).2 n hlimit
        have hcounted := (hbounds.onDay (Nat.le_refl _)).count_le hlater
        rw [dates, if_pos rfl, List.count_append, List.count_singleton_self]
        omega
      · have hnone : (s.dates tenant q (.ok reply, w')).count d = 0 := by
          rw [dates]
          split
          · rename_i htenant
            exact List.count_eq_zero.2 fun hmem => hthis ⟨htenant, (List.mem_singleton.1 hmem).symm⟩
          · rfl
        rw [List.count_append, hnone]
        exact hcount d

end Accounted

/-- However the calls go on, no day gets more answers than the limit. -/
theorem count_recorded_le (hlimited : s.limited = true) (htime : s.Timely)
    {t : Tenant} {quotas : Quotas} {n : Int} {answers : List Nat} (visits : List (Visit σ))
    (w : World σ)
    (hpassing : ∀ v ∈ visits, ∀ outside, s.today outside ≤ s.today (v.passing outside))
    (hbounds : (w.ledger.usage tenant).Bounds (s.today w.outside) answers)
    (htenant : w.registry.get? tenant = some t) (hquotas : t.quotas = some quotas)
    (hlimit : quotas.maxRequestsPerDay = some n) (hcount : ∀ d, answers.count d ≤ n.toNat)
    (d : Nat) : (answers ++ s.recorded tenant visits w).count d ≤ n.toNat := by
  induction visits generalizing w answers with
  | nil =>
      rw [recorded, List.append_nil]
      exact hcount d
  | cons v rest ih =>
      obtain ⟨hpass, hrest⟩ := List.forall_mem_cons.1 hpassing
      have hbefore : ((w.withOutside (v.passing w.outside)).ledger.usage tenant).Bounds
          (s.today (v.passing w.outside)) answers := hbounds.later (hpass w.outside)
      have haccount := accounted_answer hlimited htime v.inquiry
        (w.withOutside (v.passing w.outside))
      have hlater := today_answer_le hlimited htime v.inquiry (w.withOutside (v.passing w.outside))
      rw [recorded, ← List.append_assoc]
      refine ih _ hrest (haccount.bounds hlater hbefore) ?_ ?_
      · exact (registry_answer hlimited v.inquiry _).symm ▸ htenant
      · exact haccount.count_le hlater hbefore htenant hquotas hlimit hcount

/-- Where tenants are held to their quotas and the date never goes back, every call is accounted for
whole or not at all, and no day gets more answers than a tenant's limit allows. -/
theorem answers_within_limit (hlimited : s.limited = true) (htime : s.Timely) :
    (∀ q w, s.Accounted q w (s.answer q w).1 (s.answer q w).2) ∧
    ∀ (registry : Registry) (outside : σ) (visits : List (Visit σ)),
      (∀ v ∈ visits, ∀ outside, s.today outside ≤ s.today (v.passing outside)) →
      ∀ tenant t quotas n, registry.get? tenant = some t → t.quotas = some quotas →
        quotas.maxRequestsPerDay = some n →
        ∀ day, (s.recorded tenant visits (.new outside registry)).count day ≤ n.toNat := by
  refine ⟨accounted_answer hlimited htime, fun registry outside visits hpassing tenant t quotas n
    htenant hquotas hlimit day => ?_⟩
  have hnone : ∀ d, ([] : List Nat).count d ≤ n.toNat := fun _ => Nat.zero_le _
  exact count_recorded_le hlimited htime visits (.new outside registry) hpassing (.zero _) htenant
    hquotas hlimit hnone day

/-- One request a day is allowed. The first answer takes until midnight and belongs to the new day,
so that the next request is denied; on the day after that there is room again. -/
theorem answers_within_limit_midnight :
    let s : ChatService (Nat × List ChatRequest) :=
      { retriever := ⟨⟨⟨"embedder", fun texts => pure (texts.map fun _ => [1])⟩, []⟩,
          ⟨"store", fun _ _ => pure 0, fun _ => pure [], fun _ _ _ => pure 0⟩⟩
        model := ⟨"model", fun r o => (.ok ⟨"yes", "model", 0⟩, (o.1 + 1, o.2 ++ [r]))⟩
        limited := true
        now := fun o => .fixed (o.1 * 43200000000) (some 0)
        lapse := id }
    let registry : Registry := .new false [⟨"acme", "Acme", some ⟨none, none, some 1, none⟩⟩]
    let ask : Inquiry := ⟨⟨[⟨.user, "Where?"⟩], none, none, none⟩, "acme", none, 5, none⟩
    let visits : List (Visit (Nat × List ChatRequest)) :=
      [⟨id, ask⟩, ⟨id, ask⟩, ⟨fun o => (o.1 + 2, o.2), ask⟩]
    s.limited = true ∧ s.Timely ∧ s.Hears Prod.snd ∧
      (∀ v ∈ visits, ∀ o, s.today o ≤ s.today (v.passing o)) ∧
      s.recorded "acme" visits (.new (1, []) registry) = [2, 3] ∧
      ∀ day, (s.recorded "acme" visits (.new (1, []) registry)).count day ≤ 1 := by
  intro s registry ask visits
  have hmono {o o' : Nat × List ChatRequest} (h : o.1 ≤ o'.1) : s.today o ≤ s.today o' := by
    show (o.1 * 43200000000 / 86400000000 + 1 : Int).toNat ≤
      (o'.1 * 43200000000 / 86400000000 + 1 : Int).toNat
    omega
  have hkeeps (search : Search) : (s.retriever.retrieve search).Keeps id :=
    .bind (Action.keeps_lift _) fun _ => .bind (Action.keeps_pure _) fun _ =>
      .bind (Action.keeps_pure _) fun _ => .bind (Action.keeps_lift _) fun _ =>
        Action.keeps_pure _
  have hstill (search : Search) (o : Nat × List ChatRequest) :
      (s.retriever.retrieve search o).2 = o := hkeeps search o
  have htime : s.Timely :=
    { retrieve := fun search o => Nat.le_of_eq (congrArg s.today (hstill search o).symm)
      complete := fun _ o => hmono (Nat.le_succ o.1)
      lapse := fun _ => Nat.le_refl _ }
  have hhears : s.Hears Prod.snd :=
    { retrieve := fun search o => congrArg Prod.snd (hstill search o)
      complete := fun _ _ => rfl
      lapse := fun _ => rfl }
  have hpassing : ∀ v ∈ visits, ∀ o, s.today o ≤ s.today (v.passing o) := by
    have hlater : ∀ v ∈ visits, ∀ o, o.1 ≤ (v.passing o).1 := by simp [visits]
    exact fun v hv o => hmono (hlater v hv o)
  refine ⟨rfl, htime, hhears, hpassing, by decide +kernel, ?_⟩
  exact (answers_within_limit rfl htime).2 registry (1, []) visits hpassing "acme" _ _ 1 rfl rfl rfl

end ChatService

end Retrieval
