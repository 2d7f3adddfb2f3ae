import Retrieval.Proofs.Ingest.Books
import Retrieval.Proofs.Ingest.Course

/-!
# What a step of a document does

A document that is not over takes one of a few steps. Only the step that indexes it writes to the
store, and only the one that follows is written into the books.
-/

namespace Retrieval

namespace Stage

def document? : Stage → Option Document
  | .loaded _ d | .prepared _ d _ | .indexed _ d _ => some d
  | _ => none

end Stage

/-- Listing versions leaves alone what the questions put to the store leave alone. -/
theorem Version.keeps_list {σ κ : Type} {store : VectorStore σ} {held : σ → κ}
    (h : ∀ q, (store.query q).Keeps held) (now : σ → Time.Moment) (tenant doc : String)
    (collection : Option String) : (Version.list store now tenant doc collection).Keeps held := by
  refine .bind (Action.keeps_lift _) fun _ =>
    .bind (.bind (h _) fun _ => Action.keeps_pure _) fun records => ?_
  split
  · exact .bind (Action.keeps_read _) fun _ => Action.keeps_pure _
  · exact Action.keeps_throw _

namespace Pipeline

variable {σ : Type}

/-- The world once a document has its version and the versions there are were looked at. -/
def opened (p : Pipeline σ) (j : Job) (w : World σ) : World σ :=
  p.noticeVersions (p.assignVersion j.options w).1 (p.assignVersion j.options w).2

/-- The ways in which a document gets from a stage to the next one, and in which world. -/
inductive Passes (p : Pipeline σ) (j : Job) (w : World σ) : Stage → Stage → World σ → Prop
  | refused {f : Fault} (bad : Tenant.checkId (some j.options.tenantId) = .error f) :
      Passes p j w .queued (.done (.error f)) w
  | denied (full : p.admits j.options.tenantId (p.opened j w) = false) :
      Passes p j w .queued (.done (.ok (quotaDenial j.options.tenantId))) (p.opened j w)
  | asked (valid : Tenant.checkId (some j.options.tenantId) = .ok j.options.tenantId) :
      Passes p j w .queued
        (.loading (p.assignVersion j.options w).1 (p.loader.request j.uri (p.opened j w).outside).1)
        ((p.opened j w).withOutside (p.loader.request j.uri (p.opened j w).outside).2)
  | unloaded {o : IndexOptions} {seconds : Rat} {f : Fault} {w' : World σ}
      (fails : World.onOutside (p.loader.receive j.uri) w = (.error f, w')) :
      Passes p j w (.loading o seconds) (.done (.error f)) w'
  | loaded {o : IndexOptions} {seconds : Rat} {d : Document} {w' : World σ}
      (loads : World.onOutside (p.loader.receive j.uri) w = (.ok d, w')) :
      Passes p j w (.loading o seconds) (.loaded o d) w'
  | unprepared {o : IndexOptions} {d : Document} {f : Fault} {w' : World σ}
      (fails : p.prepare j d w = (.error f, w')) : Passes p j w (.loaded o d) (.done (.error f)) w'
  | prepared {o : IndexOptions} {d : Document} {chunks : List Chunk} {w' : World σ}
      (prepares : p.prepare j d w = (.ok chunks, w')) :
      Passes p j w (.loaded o d) (.prepared o d chunks) w'
  | indexed (o : IndexOptions) (d : Document) (chunks : List Chunk) :
      Passes p j w (.prepared o d chunks) (.indexed o d (p.index chunks o w.outside).1)
        (w.withOutside (p.index chunks o w.outside).2)
  | recorded (o : IndexOptions) (d : Document) (r : IndexReport) :
      Passes p j w (.indexed o d r) (.done (.ok r)) (p.record o d r w)

variable {p : Pipeline σ} {j : Job} {w w' : World σ} {s target : Stage}

theorem passes_start (p : Pipeline σ) (j : Job) (w : World σ) :
    p.Passes j w .queued (p.start j w).1 (p.start j w).2 := by
  unfold start
  cases hc : Tenant.checkId (some j.options.tenantId) with
  | error f => exact .refused hc
  | ok tenant =>
      cases Tenant.eq_of_checkId hc
      dsimp only
      by_cases ha : p.admits j.options.tenantId (p.opened j w) = true
      · rw [opened] at ha
        rw [if_pos ha]
        exact .asked hc
      · rw [Bool.not_eq_true] at ha
        have full := ha
        rw [opened] at ha
        rw [if_neg (ne_true_of_eq_false ha)]
        exact .denied full

theorem passes_advance (p : Pipeline σ) (j : Job) (w : World σ) (h : s.outcome? = none) :
    p.Passes j w s (p.advance j s w).1 (p.advance j s w).2 := by
  cases s with
  | queued => exact p.passes_start j w
  | loading o seconds =>
      rw [advance]
      rcases hr : World.onOutside (p.loader.receive j.uri) w with ⟨f | d, w'⟩
      · exact .unloaded hr
      · exact .loaded hr
  | loaded o d =>
      rw [advance]
      rcases hr : p.prepare j d w with ⟨f | chunks, w'⟩
      · exact .unprepared hr
      · exact .prepared hr
  | prepared o d chunks => exact .indexed o d chunks
  | indexed o d r => exact .recorded o d r
  | done outcome => cases h

namespace Passes

theorem isFor (hp : p.Passes j w s target w') (hs : s.IsFor j.options.tenantId) :
    target.IsFor j.options.tenantId := by
  cases hp with
  | asked valid =>
      rintro _ ⟨⟩
      exact p.tenantId_assignVersion w j.options
  | loaded loads => exact hs
  | prepared prepares => exact hs
  | indexed o d chunks => exact hs
  | _ => exact Stage.isFor_done _ _

theorem document (hp : p.Passes j w s target w') {d : Document} (hd : target.document? = some d) :
    s.document? = some d ∨ ∃ o, target = .loaded o d := by
  cases hp with
  | loaded loads =>
      cases hd
      exact Or.inr ⟨_, rfl⟩
  | prepared prepares => exact Or.inl hd
  | indexed o d chunks => exact Or.inl hd
  | _ => cases hd

theorem of_loaded {o : IndexOptions} {d : Document} (hp : p.Passes j w s (.loaded o d) w') :
    ∃ outside, (p.loader.receive j.uri outside).1 = .ok d := by
  cases hp with
  | loaded loads => exact ⟨w.outside, congrArg Prod.fst loads⟩

theorem of_prepared {o : IndexOptions} {d : Document} {chunks : List Chunk}
    (hp : p.Passes j w (.prepared o d chunks) target w') :
    target = .indexed o d (p.index chunks o w.outside).1 ∧
      w' = w.withOutside (p.index chunks o w.outside).2 := by
  cases hp with
  | indexed => exact ⟨rfl, rfl⟩

theorem source_of_indexed {o : IndexOptions} {d : Document} {r : IndexReport}
    (hp : p.Passes j w s (.indexed o d r) w') : ∃ chunks, s = .prepared o d chunks := by
  cases hp with
  | indexed => exact ⟨_, rfl⟩

theorem of_target_prepared {o : IndexOptions} {d : Document} {chunks : List Chunk}
    (hp : p.Passes j w s (.prepared o d chunks) w') :
    s = .loaded o d ∧ p.prepare j d w = (.ok chunks, w') := by
  cases hp with
  | prepared prepares => exact ⟨rfl, prepares⟩

theorem of_indexed {o : IndexOptions} {d : Document} {r : IndexReport}
    (hp : p.Passes j w (.indexed o d r) target w') :
    target = .done (.ok r) ∧ w' = p.record o d r w := by
  cases hp with
  | recorded => exact ⟨rfl, rfl⟩

end Passes

theorem books_opened (p : Pipeline σ) (j : Job) (w : World σ) :
    (p.opened j w).books = w.books :=
  (p.books_noticeVersions _ _).trans (p.books_assignVersion w j.options)

theorem books_of_passes (hp : p.Passes j w s target w') (hs : ∀ o d r, s ≠ .indexed o d r) :
    w'.books = w.books := by
  cases hp with
  | refused bad => rfl
  | denied full => exact p.books_opened j w
  | asked valid => exact p.books_opened j w
  | unloaded fails => exact congrArg (·.2.books) fails.symm
  | loaded loads => exact congrArg (·.2.books) loads.symm
  | unprepared fails =>
      exact (congrArg (·.2.books) fails).symm.trans (p.keeps_prepare j _ w)
  | prepared prepares =>
      exact (congrArg (·.2.books) prepares).symm.trans (p.keeps_prepare j _ w)
  | indexed o d chunks => rfl
  | recorded o d r => exact absurd rfl (hs o d r)

theorem outside_record (p : Pipeline σ) (o : IndexOptions) (d : Document) (r : IndexReport)
    (w : World σ) : (p.record o d r w).outside = w.outside := by
  unfold record
  split <;> rfl

/-- Only what is indexed changes what is held. -/
structure Holds {κ : Type} (p : Pipeline σ) (held : σ → κ) : Prop where
  request : ∀ uri outside, held (p.loader.request uri outside).2 = held outside
  receive : ∀ uri, (p.loader.receive uri).Keeps held
  extract : ∀ d, (p.extractor.extract d).Keeps held
  cut : ∀ options serial text, (p.chunker.cut options serial text).Keeps held
  versions : ∀ tenant doc collection, (p.versions tenant doc collection).Keeps held

namespace Holds

variable {κ : Type} {held : σ → κ}

theorem opened (h : p.Holds held) (j : Job) (w : World σ) :
    held (p.opened j w).outside = held w.outside := by
  have hassign : (p.assignVersion j.options w).2.outside = w.outside := by
    unfold assignVersion
    split <;> rfl
  unfold Pipeline.opened noticeVersions
  split
  · rw [← hassign]
    exact h.versions _ _ _ _
  · rw [hassign]

theorem received (h : p.Holds held) (uri : String) :
    (World.onOutside (p.loader.receive uri)).Keeps fun w => held w.outside :=
  fun w => h.receive uri w.outside

theorem prepare (h : p.Holds held) (j : Job) (d : Document) :
    (p.prepare j d).Keeps fun w => held w.outside :=
  .bind (fun w => h.extract d w.outside) fun _ => .bind (Action.keeps_read _) fun _ =>
    .bind (fun w => h.cut _ _ _ w.outside) fun _ => .bind (Action.keeps_change fun _ => rfl) fun _ =>
      Action.keeps_mapM (fun _ => .bind (Action.keeps_read _) fun _ => Action.keeps_lift _) _

theorem passes (h : p.Holds held) (hp : p.Passes j w s target w')
    (hs : ∀ o d chunks, s ≠ .prepared o d chunks) : held w'.outside = held w.outside := by
  cases hp with
  | refused bad => rfl
  | denied full => exact h.opened j w
  | asked valid => exact (h.request j.uri _).trans (h.opened j w)
  | unloaded fails => exact (congrArg (held ·.2.outside) fails).symm.trans (h.received j.uri w)
  | loaded loads => exact (congrArg (held ·.2.outside) loads).symm.trans (h.received j.uri w)
  | unprepared fails => exact (congrArg (held ·.2.outside) fails).symm.trans (h.prepare j _ w)
  | prepared prepares => exact (congrArg (held ·.2.outside) prepares).symm.trans (h.prepare j _ w)
  | indexed o d chunks => exact absurd rfl (hs o d chunks)
  | recorded o d r => rw [p.outside_record]

end Holds

end Pipeline

namespace Course

variable {σ : Type} {p : Pipeline σ} {jobs : List Job} {permits : Nat}
  {beside : World σ → World σ → Prop} {u u' : Course σ}

/-- A document picked out of a course, and the step that it takes. -/
structure Moved (p : Pipeline σ) (jobs : List Job) (permits : Nat) (u rest : Course σ)
    (m : Move σ) (j : Job) : Prop where
  picks : Picks permits u m.number m.source rest
  job : jobs[m.number]? = some j
  before : m.before = u.world
  passes : p.Passes j u.world m.source m.target m.after

theorem Moved.noted {α : Type} {rest : Course σ} {m : Move σ} {j : Job}
    (hm : Moved p jobs permits u rest m j) (f : Move σ → Option α) :
    (rest.place m).noted f = u.noted f ++ (f m).toList := by
  rw [noted_place, Course.noted, hm.picks.moves, Course.noted]

def total {M : Type} [AddCommMonoid M] (f : Stage → M) (u : Course σ) : M :=
  (u.going.map fun x => f x.2).sum

theorem Moved.total {M : Type} [AddCommMonoid M] {f : Stage → M} {rest : Course σ} {m : Move σ}
    {j : Job} (hm : Moved p jobs permits u rest m j) (hqueued : f .queued = 0)
    (hdone : ∀ outcome, f (.done outcome) = 0) :
    u.total f = f m.source + rest.total f ∧ (rest.place m).total f = f m.target + rest.total f := by
  constructor
  · have hpicks := hm.picks
    generalize m.number = number, m.source = s at hpicks
    cases hpicks with
    | queued _ _ _ => rw [hqueued, zero_add, Course.total, Course.total]
    | going _ _ _ => rw [Course.total, Multiset.map_cons, Multiset.sum_cons, Course.total]
  · cases ho : m.target.outcome? with
    | none =>
        rw [place_of_unfinished rest ho, Course.total, Multiset.map_cons, Multiset.sum_cons,
          Course.total]
    | some outcome =>
        have htarget : m.target = .done outcome := by
          cases ht : m.target <;> rw [ht] at ho <;> cases ho
          rfl
        rw [place_of_finished rest ho, htarget, hdone, zero_add, Course.total, Course.total]

/-- What every step of a document preserves, and everything that happens elsewhere, holds all the
way. -/
theorem Sound.invariant {P : Course σ → Prop} (h : Sound jobs u)
    (hr : Reaches p jobs permits beside u u') (hstart : P u)
    (hmoved : ∀ u rest m j, Sound jobs u → Moved p jobs permits u rest m j → P u →
      P (rest.place m))
    (helsewhere : ∀ u w, beside u.world w → P u → P { u with world := w }) : P u' := by
  induction hr with
  | refl => exact hstart
  | tail hreach hs ih =>
      have hsound := h.reaches hreach
      cases hs with
      | elsewhere w happens => exact helsewhere _ w happens ih
      | move picks job =>
          have hs := (hsound.unfinished_of_picks picks).1
          refine hmoved _ _ _ _ hsound ⟨picks, job, picks.world, ?_⟩ ih
          rw [← picks.world]
          exact p.passes_advance _ _ hs

end Course

end Retrieval
