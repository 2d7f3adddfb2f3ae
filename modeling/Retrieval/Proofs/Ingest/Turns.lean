import Retrieval.Ingest.Site
import Retrieval.Proofs.Ingest.Course
import Retrieval.Proofs.Schedule.Fanout

/-!
# The turns of a batch

A batch that runs takes its turns in one of the orders in which its documents can take their steps,
and it goes on until all of them are over. What it reports is how they ended.
-/

namespace Retrieval

open Relation (ReflTransGen)

variable {σ : Type}

/-- While no job of the worker sleeps, time passes without anything happening. -/
theorem Site.passUntil_of_quiet (p : Pipeline σ) (instant : Rat) {s : Site σ}
    (h : s.worker.asleep = []) :
    (s.passUntil p instant).world = s.world ∧ (s.passUntil p instant).worker.asleep = [] := by
  unfold passUntil onWorker Worker.pass
  cases s.worker.asleep.length + s.worker.pendingWork with
  | zero => exact ⟨rfl, h⟩
  | succ naps =>
      rw [Worker.passFor, h]
      exact ⟨rfl, rfl⟩

/-- A document that is begun sleeps while its loader takes time, or is done without a break. -/
theorem Site.begin_cases {p : Pipeline σ} {j : Job} {s : Site σ} {stage : Stage}
    {w : World σ} (h : p.start j s.world = (stage, w)) :
    stage.outcome? = none ∧
        (∃ seconds, (work p).begin j s = (.sleeping seconds (j, stage), s.withWorld w)) ∨
      (work p).begin j s =
        (.finished (p.finish j stage w).1, s.withWorld (p.finish j stage w).2) := by
  unfold work Pipeline.work
  cases stage with
  | loading o seconds =>
      by_cases hs : 0 < seconds
      · left
        refine ⟨rfl, seconds, ?_⟩
        simp only [h, if_pos hs]
      · right
        simp only [h, if_neg hs]
  | _ =>
      right
      simp only [h]

/-- A batch as it runs, taken as the course of its documents; `hand` is what is to begin right now.
-/
structure Follows (jobs : List Job) (hand : Multiset Nat)
    (f : Fanout (Site σ) (Job × Stage) IndexReport) (u : Course σ) : Prop where
  world : u.world = f.world.world
  quiet : f.world.worker.asleep = []
  queued : u.queued = hand + f.upcoming
  going : u.going = f.begun.map fun x => (x.1, x.2.2)
  told : u.told = f.outcomes
  underway : ∀ x ∈ f.begun, jobs[x.1]? = some x.2.1 ∧ x.2.2.outcome? = none

namespace Follows

open Course

variable {p : Pipeline σ} {jobs : List Job} {permits number : Nat} {hand : Multiset Nat}
  {beside : World σ → World σ → Prop} {f : Fanout (Site σ) (Job × Stage) IndexReport}
  {u : Course σ}

theorem start {s : Site σ} (h : s.worker.asleep = []) (clock : Rat) :
    Follows jobs 0 (Fanout.start jobs.length permits clock s)
      (Course.start jobs.length s.world) where
  world := rfl
  quiet := h
  queued := by
    have hsum : ((List.range jobs.length).map fun number =>
        (.begin number : Turn (Job × Stage)).upcoming).sum = Multiset.range jobs.length :=
      Multiset.sum_map_singleton (Multiset.range jobs.length)
    simp [Course.start, Fanout.upcoming, Fanout.start, Function.comp_def, hsum]
  going := by simp [Course.start, Fanout.begun, Fanout.start, Function.comp_def, Turn.begun]
  told := rfl
  underway x hx := by simp [Fanout.begun, Fanout.start, Function.comp_def, Turn.begun] at hx

theorem release (h : Follows jobs 0 f u) : Follows jobs 0 f.release u where
  world := by rw [f.world_release, h.world]
  quiet := by rw [f.world_release, h.quiet]
  queued := by rw [f.upcoming_release, h.queued]
  going := by rw [f.begun_release, h.going]
  told := by rw [f.outcomes_release, h.told]
  underway := by rw [f.begun_release]; exact h.underway

theorem enqueue {t : Turn (Job × Stage)} (h : Follows jobs 0 f u) (hupcoming : t.upcoming = 0)
    (hbegun : t.begun = 0) : Follows jobs 0 (f.enqueue t) u where
  world := h.world
  quiet := h.quiet
  queued := by rw [f.upcoming_enqueue, hupcoming, add_zero, h.queued]
  going := by rw [f.begun_enqueue, hbegun, add_zero, h.going]
  told := h.told
  underway := by rw [f.begun_enqueue, hbegun, add_zero]; exact h.underway

variable (p permits beside) in
theorem complete {j : Job} {s : Stage} {w : World σ} (rest : Course σ) (m : Move σ)
    (hj : jobs[number]? = some j) (hnumber : m.number = number) (htarget : m.target = s)
    (hafter : m.after = w) (hquiet : f.world.worker.asleep = [])
    (hqueued : rest.queued = f.upcoming) (hgoing : rest.going = f.begun.map fun x => (x.1, x.2.2))
    (htold : rest.told = f.outcomes)
    (hunderway : ∀ x ∈ f.begun, jobs[x.1]? = some x.2.1 ∧ x.2.2.outcome? = none) :
    ∃ u', Reaches p jobs permits beside (rest.place m) u' ∧
      Follows jobs 0 ({ f with world := f.world.withWorld (p.finish j s w).2 }.complete number
        (p.finish j s w).1) u' := by
  obtain ⟨moves, hreach, hmoves⟩ :=
    reaches_finish permits beside hj s w rest m hnumber htarget hafter
  refine ⟨_, hreach, ?_⟩
  have hover : Follows jobs 0
      { f with world := f.world.withWorld (p.finish j s w).2,
               outcomes := f.outcomes ++ [(number, (p.finish j s w).1)] }
      ⟨(p.finish j s w).2, rest.queued, rest.going, moves⟩ := by
    refine ⟨rfl, hquiet, ?_, hgoing, ?_, hunderway⟩
    · rw [zero_add]
      exact hqueued
    · rw [Course.told, noted, hmoves, htold]
  exact hover.release.enqueue rfl rfl

theorem launch {j : Job} (h : Follows jobs {number} f u) (hj : jobs[number]? = some j)
    (hfree : u.going.card < permits) :
    ∃ u', Reaches p jobs permits beside u u' ∧
      Follows jobs 0 (f.launch (Site.work p) jobs number) u' := by
  obtain ⟨w, queued, going, moves⟩ := u
  cases h.world
  have hqueued : queued = number ::ₘ f.upcoming := h.queued.trans (Multiset.singleton_add _ _)
  subst hqueued
  let rest : Course σ := ⟨f.world.world, f.upcoming, going, moves⟩
  let m : Move σ := p.move j number .queued f.world.world
  have hstep : Step p jobs permits beside ⟨_, number ::ₘ f.upcoming, going, moves⟩ (rest.place m) :=
    .move (.queued rest number hfree) hj
  rcases hs : p.start j f.world.world with ⟨stage, w⟩
  have htarget : m.target = stage := congrArg Prod.fst hs
  have hafter : m.after = w := congrArg Prod.snd hs
  simp only [Fanout.launch, hj]
  rcases Site.begin_cases hs with ⟨hstage, seconds, hb⟩ | hb <;> simp only [hb]
  · refine ⟨_, .single hstep, ?_⟩
    have hnone : m.target.outcome? = none := htarget ▸ hstage
    have htold := rest.told_place m
    rw [Move.outcome?, hnone, Option.map_none, Option.toList_none, List.append_nil] at htold
    have hbegun : Fanout.begun ({ f with world := f.world.withWorld w }.follow number
        (.sleeping seconds (j, stage))) = (number, (j, stage)) ::ₘ f.begun := by
      simp only [Fanout.follow, Fanout.begun, List.map_append, List.map_singleton,
        ← Multiset.coe_add, Multiset.coe_singleton, ← Multiset.singleton_add]
      ac_rfl
    rw [place_of_unfinished rest hnone, htarget, hafter] at htold ⊢
    refine ⟨rfl, h.quiet, (zero_add _).symm, ?_, htold.trans h.told, ?_⟩
    · rw [hbegun, Multiset.map_cons]
      exact congrArg ((number, stage) ::ₘ ·) h.going
    · rw [hbegun]
      exact Multiset.forall_mem_cons.2 ⟨⟨hj, hstage⟩, h.underway⟩
  · obtain ⟨u', hreach, hu'⟩ := complete p permits beside rest m hj rfl htarget hafter h.quiet
      rfl h.going h.told h.underway
    exact ⟨u', .head hstep hreach, hu'⟩

theorem resume {rest : Job × Stage} {later : List (Turn (Job × Stage))} (h : Follows jobs 0 f u)
    (hready : f.ready = .resume number rest :: later) :
    ∃ u', Reaches p jobs permits beside u u' ∧ Follows jobs 0
      ({ f with ready := later }.take (Site.work p) jobs true (.resume number rest)) u' := by
  obtain ⟨w, queued, going, moves⟩ := u
  cases h.world
  obtain ⟨j, s⟩ := rest
  let g : Fanout (Site σ) (Job × Stage) IndexReport := { f with ready := later }
  have hbegun : f.begun = (number, (j, s)) ::ₘ g.begun :=
    (Fanout.begun_of_ready hready).trans (Multiset.singleton_add _ _)
  have hupcoming : f.upcoming = g.upcoming := (Fanout.upcoming_of_ready hready).trans (zero_add _)
  have hgoing := h.going
  have hunderway := h.underway
  rw [hbegun] at hgoing hunderway
  obtain ⟨⟨hj, hs⟩, hlater⟩ := Multiset.forall_mem_cons.1 hunderway
  rw [Multiset.map_cons] at hgoing
  subst hgoing
  let others : Course σ := ⟨f.world.world, queued, g.begun.map fun x => (x.1, x.2.2), moves⟩
  have hstep : Step p jobs permits beside
      ⟨f.world.world, queued, (number, s) ::ₘ others.going, moves⟩
      (others.place (p.move j number s f.world.world)) := .move (.going others number s) hj
  have hqueued : queued = g.upcoming := (h.queued.trans (zero_add _)).trans hupcoming
  obtain ⟨u', hreach, hu'⟩ := complete p permits beside (f := g) others
    (p.move j number s f.world.world) hj rfl rfl rfl h.quiet hqueued rfl h.told hlater
  refine ⟨u', .head hstep hreach, ?_⟩
  rw [Fanout.take]
  simp only [Site.work, Pipeline.work, p.finish_of_unfinished j f.world.world hs]
  exact hu'

theorem pick {t : Turn (Job × Stage)} {later : List (Turn (Job × Stage))}
    (h : Follows jobs 0 f u) (hready : f.ready = t :: later) (ht : t.begun = 0) :
    Follows jobs t.upcoming { f with ready := later } u where
  world := h.world
  quiet := h.quiet
  queued := by rw [h.queued, zero_add, Fanout.upcoming_of_ready hready]
  going := by rw [h.going, Fanout.begun_of_ready hready, ht, zero_add]
  told := h.told
  underway := by
    have hunderway := h.underway
    rwa [Fanout.begun_of_ready hready, ht, zero_add] at hunderway

theorem take {t : Turn (Job × Stage)} {later : List (Turn (Job × Stage))}
    (h : Follows jobs 0 f u) (horder : Fanout.Orderly jobs.length permits 0 0 f)
    (hready : f.ready = t :: later) :
    ∃ u', Reaches p jobs permits beside u u' ∧
      Follows jobs 0 ({ f with ready := later }.take (Site.work p) jobs true t) u' := by
  have hheld := horder.pick hready
  have hpermits := horder.permits
  rw [← Multiset.card_map (fun x => (x.1, x.2.2)) f.begun, ← h.going] at hpermits
  cases t with
  | begin number =>
      have hpick := h.pick hready rfl
      have hn : number < jobs.length := hheld.lt_of_mem_hand (by simp [Turn.upcoming])
      rw [Fanout.take]
      by_cases hp : f.permits = 0
      · rw [if_pos hp]
        refine ⟨u, .refl, h.world, h.quiet, ?_, hpick.going, h.told, hpick.underway⟩
        rw [hpick.queued, Turn.upcoming, zero_add]
        simp only [Fanout.upcoming, ← Multiset.coe_add, Multiset.coe_singleton]
        ac_rfl
      · rw [if_neg hp]
        have hless : Follows jobs {number}
            { f with ready := later, permits := f.permits - 1 } u :=
          ⟨h.world, h.quiet, hpick.queued, hpick.going, h.told, hpick.underway⟩
        refine hless.launch (List.getElem?_eq_getElem hn) ?_
        rw [Fanout.free] at hpermits
        omega
  | permit number =>
      have hn : number < jobs.length := hheld.lt_of_mem_hand (by simp [Turn.upcoming])
      refine (h.pick hready rfl).launch (List.getElem?_eq_getElem hn) ?_
      rw [Fanout.free_of_ready hready, Turn.free] at hpermits
      omega
  | resume number rest => exact h.resume hready
  | notice number failed =>
      refine ⟨u, .refl, ?_⟩
      simp only [Fanout.take, Bool.not_true, Bool.and_false]
      exact h.pick hready rfl
  | abandon =>
      have hpick := h.pick hready rfl
      exact ⟨u, .refl, h.world, h.quiet, hpick.queued, hpick.going, h.told, hpick.underway⟩

theorem wait (h : Follows jobs 0 f u) (hready : f.ready = []) (due : Rat) :
    Follows jobs 0 (f.wait (Site.work p) due) u := by
  obtain ⟨hworld, hquiet⟩ := Site.passUntil_of_quiet p due h.quiet
  have hbegun := Fanout.Orderly.begun_wait (Site.work p) hready due
  have hupcoming := Fanout.Orderly.upcoming_wait (Site.work p) hready due
  refine ⟨h.world.trans hworld.symm, hquiet, ?_, ?_, h.told, ?_⟩
  · rw [hupcoming, h.queued]
  · rw [hbegun, h.going]
  · rw [hbegun]
    exact h.underway

variable (p beside) in
theorem step {f' : Fanout (Site σ) (Job × Stage) IndexReport} (h : Follows jobs 0 f u)
    (horder : Fanout.Orderly jobs.length permits 0 0 f)
    (hstep : f.step (Site.work p) jobs true = some f') :
    ∃ u', Reaches p jobs permits beside u u' ∧ Follows jobs 0 f' u' := by
  obtain ⟨t, later, hready, rfl⟩ | ⟨hready, due, -, rfl⟩ := Fanout.step_cases hstep
  · exact h.take horder hready
  · exact ⟨u, .refl, h.wait hready due⟩

variable (p beside) in
theorem runFor (h : Follows jobs 0 f u) (horder : Fanout.Orderly jobs.length permits 0 0 f)
    (steps : Nat) :
    ∃ u', Reaches p jobs permits beside u u' ∧
      Follows jobs 0 (f.runFor (Site.work p) jobs true steps) u' := by
  induction steps generalizing f u with
  | zero => exact ⟨u, .refl, h⟩
  | succ steps ih =>
      rw [Fanout.runFor]
      cases hs : f.step (Site.work p) jobs true with
      | none => exact ⟨u, .refl, h⟩
      | some f' =>
          obtain ⟨u₁, hreach, h₁⟩ := h.step p beside horder hs
          obtain ⟨u₂, hreach', h₂⟩ := ih h₁ (horder.step hs)
          exact ⟨u₂, hreach.trans hreach', h₂⟩

end Follows

def Course.report (uris : List String) (u : Course σ) : BatchReport := .ofOutcomes uris u.told

theorem BatchReport.results_ofOutcomes (uris : List String)
    (told : List (Nat × Outcome IndexReport)) :
    (BatchReport.ofOutcomes uris told).results = told.filterMap (·.2.toOption) := by
  refine List.filterMap_congr ?_
  rintro ⟨number, f | r⟩ - <;> rfl

theorem one_le_of_batchPermits {limit cores : Option Int} {permits : Nat}
    (h : batchPermits limit cores = .ok permits) : 1 ≤ permits := by
  have hdefault : 1 ≤ defaultPermits cores := by
    unfold defaultPermits
    split <;> omega
  unfold batchPermits at h
  split at h
  · cases h
    exact hdefault
  · cases h
    exact hdefault
  · rename_i n hn
    unfold checkPermits at h
    split at h
    · cases h
    · cases h
      have : n ≠ 0 := fun h => hn (h ▸ rfl)
      omega

/-- A batch returns, with the report and the world of a course of its documents that has come to its
end. -/
theorem Site.ingestBatch_returns (p : Pipeline σ) (uris : List String) (o : IndexOptions)
    (chunking : Option ChunkOptions) {limit cores : Option Int} {permits : Nat} {s : Site σ}
    (hl : batchPermits limit cores = .ok permits) (h : s.worker.asleep = [])
    (beside : World σ → World σ → Prop) :
    ∃ u s', Course.Reaches p (batchJobs uris o chunking) permits beside
        (.start uris.length s.world) u ∧ u.IsOver ∧
      ingestBatch p uris o chunking limit cores s = (.ok (u.report uris), s') ∧
      s'.world = u.world := by
  have hlength : (batchJobs uris o chunking).length = uris.length := List.length_map _
  rw [← hlength]
  have hstart : Follows (batchJobs uris o chunking) 0
      (Fanout.start (batchJobs uris o chunking).length permits s.worker.clock s)
      (.start (batchJobs uris o chunking).length s.world) := .start h s.worker.clock
  obtain ⟨u, hreach, hu⟩ := hstart.runFor p beside (.start _ permits _ _)
    (6 * (batchJobs uris o chunking).length + 2)
  have hover := Fanout.isOver_run (work p) (batchJobs uris o chunking)
    (one_le_of_batchPermits hl) s.worker.clock s
  refine ⟨u, _, hreach, ⟨?_, ?_⟩, ?_, hu.world.symm⟩
  · rw [hu.queued, zero_add]
    exact hover.1
  · rw [hu.going]
    exact (congrArg (Multiset.map _) hover.2).trans (Multiset.map_zero _)
  · unfold ingestBatch
    rw [hl, Course.report, hu.told]
    rfl

end Retrieval
