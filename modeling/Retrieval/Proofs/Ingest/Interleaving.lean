import Mathlib.Data.Multiset.Filter
import Retrieval.Proofs.Ingest.Books
import Retrieval.Proofs.Ingest.Turns

/-!
# Documents side by side

Some documents wait for a permit and some are on their way, each at a stage of its own. At any time
one that waits may begin, if a permit is left, or any one on its way may take its next step, or
something may happen elsewhere in the world that leaves the books alone. The course of a batch is
one of these orders once the numbers of its documents are forgotten.
-/

namespace Retrieval

open Relation (ReflTransGen)

structure Underway (σ : Type) where
  world : World σ
  queued : Multiset Job
  going : Multiset (Job × Stage)

namespace Underway

variable {σ : Type}

def start (jobs : List Job) (world : World σ) : Underway σ := ⟨world, jobs, 0⟩

def place (queued : Multiset Job) (going : Multiset (Job × Stage)) (j : Job)
    (r : Stage × World σ) : Underway σ :=
  ⟨r.2, queued, if r.1.outcome?.isSome then going else (j, r.1) ::ₘ going⟩

theorem place_of_unfinished (queued : Multiset Job) (going : Multiset (Job × Stage)) (j : Job)
    {s : Stage} (w : World σ) (h : s.outcome? = none) :
    place queued going j (s, w) = ⟨w, queued, (j, s) ::ₘ going⟩ := by
  simp [place, h]

theorem place_of_finished (queued : Multiset Job) (going : Multiset (Job × Stage)) (j : Job)
    {s : Stage} {outcome : Outcome IndexReport} (w : World σ) (h : s.outcome? = some outcome) :
    place queued going j (s, w) = ⟨w, queued, going⟩ := by
  simp [place, h]

inductive Step (p : Pipeline σ) (permits : Nat) : Underway σ → Underway σ → Prop
  | begin (w : World σ) (queued : Multiset Job) (going : Multiset (Job × Stage)) (j : Job)
      (free : going.card < permits) :
      Step p permits ⟨w, j ::ₘ queued, going⟩ (place queued going j (p.advance j .queued w))
  | advance (w : World σ) (queued : Multiset Job) (going : Multiset (Job × Stage)) (j : Job)
      (s : Stage) :
      Step p permits ⟨w, queued, (j, s) ::ₘ going⟩ (place queued going j (p.advance j s w))
  | elsewhere (w w' : World σ) (queued : Multiset Job) (going : Multiset (Job × Stage))
      (same : w'.books = w.books) : Step p permits ⟨w, queued, going⟩ ⟨w', queued, going⟩

abbrev Reaches (p : Pipeline σ) (permits : Nat) : Underway σ → Underway σ → Prop :=
  ReflTransGen (Step p permits)

end Underway

namespace Course

variable {σ : Type} {p : Pipeline σ} {jobs : List Job} {permits number : Nat} {s : Stage} {j : Job}
  {u u' rest : Course σ}

def under (jobs : List Job) (u : Course σ) : Underway σ where
  world := u.world
  queued := u.queued.filterMap (jobs[·]?)
  going := u.going.filterMap fun x => jobs[x.1]?.map (·, x.2)

theorem under_start (jobs : List Job) (w : World σ) :
    (start jobs.length w).under jobs = .start jobs w := by
  have hjobs : (List.range jobs.length).filterMap (jobs[·]?) = jobs := by
    induction jobs with
    | nil => rfl
    | cons j later ih =>
        rw [List.length_cons, List.range_succ_eq_map, List.filterMap_cons, List.filterMap_map]
        exact congrArg (j :: ·) ih
  have hqueued : (Multiset.range jobs.length).filterMap (jobs[·]?) = ↑jobs := by
    rw [← Multiset.coe_range, Multiset.filterMap_coe, hjobs]
  rw [under, start, hqueued]
  rfl

theorem under_place (hj : jobs[number]? = some j) (s : Stage) (u : Course σ) :
    (u.place (p.move j number s u.world)).under jobs =
      .place (u.under jobs).queued (u.under jobs).going j (p.advance j s u.world) := by
  rcases hs : p.advance j s u.world with ⟨target, w⟩
  have hm : p.move j number s u.world = ⟨number, s, target, u.world, w⟩ := by rw [Pipeline.move, hs]
  rw [hm]
  cases ho : target.outcome? with
  | none =>
      rw [Underway.place_of_unfinished _ _ j w ho, place_of_unfinished u ho, under,
        Multiset.filterMap_cons_some _ _ _ (by rw [hj]; rfl)]
      rfl
  | some outcome =>
      rw [Underway.place_of_finished _ _ j w ho, place_of_finished u ho]
      rfl

theorem card_going_under_le (jobs : List Job) (u : Course σ) :
    (u.under jobs).going.card ≤ u.going.card := by
  obtain ⟨w, queued, going, moves⟩ := u
  induction going using Quotient.inductionOn with
  | h going => exact List.length_filterMap_le _ _

theorem Picks.under (h : Picks permits u number s rest) (hj : jobs[number]? = some j) :
    Underway.Step p permits (u.under jobs)
      (.place (rest.under jobs).queued (rest.under jobs).going j (p.advance j s rest.world)) := by
  cases h with
  | queued rest number free =>
      have hpicked : under jobs { rest with queued := number ::ₘ rest.queued } =
          ⟨rest.world, j ::ₘ (rest.under jobs).queued, (rest.under jobs).going⟩ := by
        rw [under, Multiset.filterMap_cons_some _ _ _ hj]
        rfl
      rw [hpicked]
      exact .begin _ _ _ j (Nat.lt_of_le_of_lt (card_going_under_le jobs rest) free)
  | going rest number s =>
      have hpicked : under jobs { rest with going := (number, s) ::ₘ rest.going } =
          ⟨rest.world, (rest.under jobs).queued, (j, s) ::ₘ (rest.under jobs).going⟩ := by
        rw [under, Multiset.filterMap_cons_some _ _ _ (by rw [hj]; rfl)]
        rfl
      rw [hpicked]
      exact .advance _ _ _ j s

theorem Step.under (h : Step p jobs permits (fun w w' => w'.books = w.books) u u') :
    Underway.Step p permits (u.under jobs) (u'.under jobs) := by
  cases h with
  | move picks hj =>
      rw [under_place hj]
      exact picks.under hj
  | elsewhere w happens => exact .elsewhere _ _ _ _ happens

theorem Reaches.under (h : Reaches p jobs permits (fun w w' => w'.books = w.books) u u') :
    Underway.Reaches p permits (u.under jobs) (u'.under jobs) := by
  induction h with
  | refl => exact .refl
  | tail _ hs ih => exact ih.tail hs.under

end Course

/-- A batch leaves the world as the documents side by side leave it when they take their steps in
some order. -/
theorem Site.reaches_ingestBatch {σ : Type} (p : Pipeline σ) (uris : List String)
    (o : IndexOptions) (chunking : Option ChunkOptions) {limit cores : Option Int} {permits : Nat}
    {s : Site σ} (hl : batchPermits limit cores = .ok permits) (h : s.worker.asleep = []) :
    ∃ u, Underway.Reaches p permits (.start (batchJobs uris o chunking) s.world) u ∧
      (ingestBatch p uris o chunking limit cores s).2.world = u.world := by
  obtain ⟨u, s', hreach, -, hreturns, hworld⟩ := ingestBatch_returns p uris o chunking hl h
    fun w w' => w'.books = w.books
  have hlength : (batchJobs uris o chunking).length = uris.length := List.length_map _
  refine ⟨u.under (batchJobs uris o chunking), ?_, ?_⟩
  · rw [← Course.under_start, hlength]
    exact hreach.under
  · rw [hreturns]
    exact hworld

end Retrieval
