import Mathlib.Algebra.BigOperators.Group.Multiset.Basic
import Mathlib.Data.Multiset.Range
import Mathlib.Logic.Relation
import Retrieval.Ingest.Batch

/-!
# The course of a batch

The documents of a batch go by their numbers: some wait for a permit, some are on their way, each at
a stage of its own, and the others are over. At any time one that waits may begin, if a permit is
left, or any one on its way may take its next step, or something may happen elsewhere. Every step of
a document is kept as a move. Moves lead to the end, and until then some document can move.
-/

namespace Retrieval

open Relation (ReflTransGen)

namespace Pipeline

variable {σ : Type} (p : Pipeline σ) (j : Job) {s : Stage} (w : World σ)

theorem finish_of_finished {outcome : Outcome IndexReport} (h : s.outcome? = some outcome) :
    p.finish j s w = (outcome, w) := by
  rw [finish]
  split <;> simp_all

theorem finish_of_unfinished (h : s.outcome? = none) :
    p.finish j s w = p.finish j (p.advance j s w).1 (p.advance j s w).2 := by
  rw [finish]
  split <;> simp_all

end Pipeline

/-- A step that a document took, with the world before and after it. -/
structure Move (σ : Type) where
  number : Nat
  source : Stage
  target : Stage
  before : World σ
  after : World σ

def Pipeline.move {σ : Type} (p : Pipeline σ) (j : Job) (number : Nat) (s : Stage) (w : World σ) :
    Move σ :=
  ⟨number, s, (p.advance j s w).1, w, (p.advance j s w).2⟩

def Move.outcome? {σ : Type} (m : Move σ) : Option (Nat × Outcome IndexReport) :=
  m.target.outcome?.map fun outcome => (m.number, outcome)

structure Course (σ : Type) where
  world : World σ
  queued : Multiset Nat
  going : Multiset (Nat × Stage)
  moves : List (Move σ)

namespace Course

variable {σ : Type}

def start (count : Nat) (world : World σ) : Course σ := ⟨world, Multiset.range count, 0, []⟩

def noted {α : Type} (f : Move σ → Option α) (u : Course σ) : List α := u.moves.filterMap f

/-- How the documents ended that are over, in the order in which they did. -/
def told (u : Course σ) : List (Nat × Outcome IndexReport) := u.noted Move.outcome?

def IsOver (u : Course σ) : Prop := u.queued = 0 ∧ u.going = 0

def place (u : Course σ) (m : Move σ) : Course σ where
  world := m.after
  queued := u.queued
  going := if m.target.outcome?.isSome then u.going else (m.number, m.target) ::ₘ u.going
  moves := u.moves ++ [m]

/-- A document that is to take a step is picked out of the others: with a permit that is left, if it
has none yet. -/
inductive Picks (permits : Nat) : Course σ → Nat → Stage → Course σ → Prop
  | queued (u : Course σ) (number : Nat) (free : u.going.card < permits) :
      Picks permits { u with queued := number ::ₘ u.queued } number .queued u
  | going (u : Course σ) (number : Nat) (s : Stage) :
      Picks permits { u with going := (number, s) ::ₘ u.going } number s u

inductive Step (p : Pipeline σ) (jobs : List Job) (permits : Nat)
    (beside : World σ → World σ → Prop) : Course σ → Course σ → Prop
  | move {u rest : Course σ} {number : Nat} {s : Stage} {j : Job}
      (picks : Picks permits u number s rest) (job : jobs[number]? = some j) :
      Step p jobs permits beside u (rest.place (p.move j number s rest.world))
  | elsewhere (u : Course σ) (w : World σ) (happens : beside u.world w) :
      Step p jobs permits beside u { u with world := w }

abbrev Reaches (p : Pipeline σ) (jobs : List Job) (permits : Nat)
    (beside : World σ → World σ → Prop) : Course σ → Course σ → Prop :=
  ReflTransGen (Step p jobs permits beside)

variable {p : Pipeline σ} {jobs : List Job} {permits : Nat} {beside : World σ → World σ → Prop}
  {u rest : Course σ} {number : Nat} {s : Stage} {j : Job}

theorem place_of_unfinished {m : Move σ} (u : Course σ) (h : m.target.outcome? = none) :
    u.place m = ⟨m.after, u.queued, (m.number, m.target) ::ₘ u.going, u.moves ++ [m]⟩ := by
  simp [place, h]

theorem place_of_finished {m : Move σ} {outcome : Outcome IndexReport} (u : Course σ)
    (h : m.target.outcome? = some outcome) :
    u.place m = ⟨m.after, u.queued, u.going, u.moves ++ [m]⟩ := by
  simp [place, h]

theorem noted_place {α : Type} (f : Move σ → Option α) (u : Course σ) (m : Move σ) :
    (u.place m).noted f = u.noted f ++ (f m).toList := by
  rw [noted, place, List.filterMap_append, noted]
  cases h : f m <;> simp [h]

theorem told_place (u : Course σ) (m : Move σ) : (u.place m).told = u.told ++ m.outcome?.toList :=
  noted_place Move.outcome? u m

theorem going_place (u : Course σ) (m : Move σ) (x : Nat × Stage) :
    x ∈ (u.place m).going ↔ x ∈ u.going ∨ m.target.outcome? = none ∧ x = (m.number, m.target) := by
  cases h : m.target.outcome? with
  | none => simp [place_of_unfinished u h, or_comm]
  | some outcome => simp [place_of_finished u h]

/-- Where every document stands: in line, under way or among those that are over. -/
def numbers (u : Course σ) : Multiset Nat :=
  u.queued + u.going.map Prod.fst + ↑(u.told.map Prod.fst)

theorem numbers_place (u : Course σ) (m : Move σ) :
    (u.place m).numbers = m.number ::ₘ u.numbers := by
  have htold := u.told_place m
  rw [numbers, htold, numbers]
  cases h : m.target.outcome? with
  | none =>
      rw [place_of_unfinished u h, Move.outcome?, h]
      simp only [Option.map_none, Option.toList_none, List.append_nil, Multiset.map_cons,
        Multiset.add_cons, Multiset.cons_add]
  | some outcome =>
      rw [place_of_finished u h, Move.outcome?, h, List.map_append, ← Multiset.coe_add,
        ← Multiset.singleton_add]
      simp only [Option.map_some, Option.toList_some, List.map_singleton, Multiset.coe_singleton]
      ac_rfl

theorem Picks.numbers (h : Picks permits u number s rest) :
    u.numbers = number ::ₘ rest.numbers := by
  cases h with
  | queued u number free =>
      rw [Course.numbers, Course.numbers, Multiset.cons_add, Multiset.cons_add]
      rfl
  | going u number s =>
      rw [Course.numbers, Course.numbers, Multiset.map_cons, Multiset.add_cons, Multiset.cons_add]
      rfl

theorem Picks.world (h : Picks permits u number s rest) : rest.world = u.world := by
  cases h <;> rfl

theorem Picks.mem_going (h : Picks permits u number s rest) {x : Nat × Stage}
    (hx : x ∈ rest.going) :
    x ∈ u.going := by
  cases h with
  | queued _ _ _ => exact hx
  | going _ _ _ => exact Multiset.mem_cons_of_mem hx

theorem Picks.mem_rest (h : Picks permits u number s rest) {x : Nat × Stage} (hx : x ∈ u.going) :
    x = (number, s) ∨ x ∈ rest.going := by
  cases h with
  | queued _ _ _ => exact Or.inr hx
  | going _ _ _ => exact Multiset.mem_cons.1 hx

theorem Picks.source (h : Picks permits u number s rest) : s = .queued ∨ (number, s) ∈ u.going := by
  cases h with
  | queued _ _ _ => exact Or.inl rfl
  | going _ _ _ => exact Or.inr (Multiset.mem_cons_self _ _)

theorem Picks.moves (h : Picks permits u number s rest) : rest.moves = u.moves := by
  cases h <;> rfl

/-- The most moves that are left. -/
def left (u : Course σ) : Nat := 5 * u.queued.card + (u.going.map fun x => x.2.left).sum

theorem Picks.left (h : Picks permits u number s rest) : u.left = s.left + rest.left := by
  cases h with
  | queued u number free =>
      simp only [Course.left, Multiset.card_cons, Stage.left]
      omega
  | going u number s =>
      simp only [Course.left, Multiset.map_cons, Multiset.sum_cons]
      omega

theorem left_place (u : Course σ) (m : Move σ) :
    (u.place m).left ≤ m.target.left + u.left := by
  cases h : m.target.outcome? with
  | none =>
      rw [place_of_unfinished u h]
      simp only [left, Multiset.map_cons, Multiset.sum_cons]
      omega
  | some outcome =>
      rw [place_of_finished u h]
      exact Nat.le_add_left _ _

/-- What holds of every course of a batch. -/
structure Sound (jobs : List Job) (u : Course σ) : Prop where
  numbers : u.numbers = Multiset.range jobs.length
  unfinished : ∀ x ∈ u.going, x.2.outcome? = none
  bound : u.moves.length + u.left ≤ 5 * jobs.length

namespace Sound

theorem start (jobs : List Job) (w : World σ) :
    Sound jobs (.start jobs.length w) where
  numbers := by simp [Course.numbers, Course.start, told, noted]
  unfinished x hx := absurd hx (Multiset.notMem_zero x)
  bound := by simp [Course.start, left]

theorem unfinished_of_picks (h : Sound jobs u) (hp : Picks permits u number s rest) :
    s.outcome? = none ∧ ∀ x ∈ rest.going, x.2.outcome? = none := by
  cases hp with
  | queued u number free => exact ⟨rfl, h.unfinished⟩
  | going u number s => exact Multiset.forall_mem_cons.1 h.unfinished

theorem move (h : Sound jobs u) (hp : Picks permits u number s rest) (p : Pipeline σ) (j : Job) :
    Sound jobs (rest.place (p.move j number s rest.world)) := by
  obtain ⟨hs, hrest⟩ := h.unfinished_of_picks hp
  refine ⟨?_, ?_, ?_⟩
  · rw [numbers_place, ← h.numbers, hp.numbers]
    rfl
  · cases ho : (p.move j number s rest.world).target.outcome? with
    | none =>
        rw [place_of_unfinished rest ho]
        exact Multiset.forall_mem_cons.2 ⟨ho, hrest⟩
    | some outcome =>
        rw [place_of_finished rest ho]
        exact hrest
  · have hbound := h.bound
    have hless : (p.move j number s rest.world).target.left < s.left :=
      p.left_advance_lt j rest.world hs
    have hplaced := left_place rest (p.move j number s rest.world)
    rw [hp.left, ← hp.moves] at hbound
    simp only [place, List.length_append, List.length_singleton] at hplaced ⊢
    omega

theorem step {u' : Course σ} (h : Sound jobs u) (hs : Step p jobs permits beside u u') :
    Sound jobs u' := by
  cases hs with
  | move hp hj => exact h.move hp p _
  | elsewhere w happens => exact ⟨h.numbers, h.unfinished, h.bound⟩

theorem reaches {u' : Course σ} (h : Sound jobs u) (hr : Reaches p jobs permits beside u u') :
    Sound jobs u' := by
  induction hr with
  | refl => exact h
  | tail _ hs ih => exact ih.step hs

theorem lt_of_mem (h : Sound jobs u) (hn : number ∈ u.numbers) : number < jobs.length := by
  rwa [h.numbers, Multiset.mem_range] at hn

/-- Some document can move until all are over. -/
theorem isOver_or_moves (h : Sound jobs u) (hpermits : 0 < permits) :
    u.IsOver ∨ ∃ u', Step p jobs permits beside u u' ∧ u'.moves.length = u.moves.length + 1 := by
  obtain ⟨w, queued, going, moves⟩ := u
  have hmoves {number : Nat} {s : Stage} {rest : Course σ}
      (hp : Picks permits ⟨w, queued, going, moves⟩ number s rest) :
      ∃ u', Step p jobs permits beside ⟨w, queued, going, moves⟩ u' ∧
        u'.moves.length = moves.length + 1 := by
    have hn : number < jobs.length :=
      h.lt_of_mem (hp.numbers ▸ Multiset.mem_cons_self number rest.numbers)
    refine ⟨_, .move hp (List.getElem?_eq_getElem hn), ?_⟩
    simp [place, hp.moves]
  by_cases hg : going = 0
  · by_cases hq : queued = 0
    · exact Or.inl ⟨hq, hg⟩
    · obtain ⟨number, hn⟩ := Multiset.exists_mem_of_ne_zero hq
      obtain ⟨later, rfl⟩ := Multiset.exists_cons_of_mem hn
      have hfree : going.card < permits := by rwa [hg, Multiset.card_zero]
      exact Or.inr (hmoves (.queued ⟨w, later, going, moves⟩ number hfree))
  · obtain ⟨⟨number, s⟩, hx⟩ := Multiset.exists_mem_of_ne_zero hg
    obtain ⟨others, rfl⟩ := Multiset.exists_cons_of_mem hx
    exact Or.inr (hmoves (.going ⟨w, queued, others, moves⟩ number s))

/-- In the end every document has ended, and just once. -/
theorem told_perm (h : Sound jobs u) (hover : u.IsOver) :
    (u.told.map Prod.fst).Perm (List.range jobs.length) := by
  have hnumbers := h.numbers
  rw [Course.numbers, hover.1, hover.2, Multiset.map_zero, add_zero, zero_add] at hnumbers
  exact Multiset.coe_eq_coe.1 hnumbers

end Sound

variable (permits beside) in
/-- All the steps that are left of a document can be taken without a break. -/
theorem reaches_finish (hj : jobs[number]? = some j) (s : Stage) (w : World σ) :
    ∀ (u : Course σ) (m : Move σ), m.number = number → m.target = s → m.after = w →
      ∃ moves, Reaches p jobs permits beside (u.place m)
          ⟨(p.finish j s w).2, u.queued, u.going, moves⟩ ∧
        moves.filterMap Move.outcome? = u.told ++ [(number, (p.finish j s w).1)] := by
  induction s, w using Pipeline.finish.induct (p := p) (j := j) with
  | case1 s w outcome h =>
      rintro u m rfl rfl rfl
      have hf := p.finish_of_finished j m.after h
      refine ⟨u.moves ++ [m], ?_, ?_⟩
      · rw [hf, place_of_finished u h]
      · have htold := u.told_place m
        rw [told, noted, place] at htold
        rw [hf, htold, Move.outcome?, h]
        rfl
  | case2 s w h ih =>
      rintro u m rfl rfl rfl
      have hf := p.finish_of_unfinished j m.after h
      have hnone : m.outcome? = none := by rw [Move.outcome?, h]; rfl
      have hmoved := u.told_place m
      rw [hnone, Option.toList_none, List.append_nil] at hmoved
      obtain ⟨moves, hreach, htold⟩ := ih ⟨m.after, u.queued, u.going, u.moves ++ [m]⟩
        (p.move j m.number m.target m.after) rfl rfl rfl
      rw [hf]
      refine ⟨moves, ReflTransGen.head ?_ hreach, ?_⟩
      · rw [place_of_unfinished u h]
        exact .move (.going ⟨m.after, u.queued, u.going, u.moves ++ [m]⟩ m.number m.target) hj
      · rw [htold]
        exact congrArg (· ++ _) hmoved

end Course

end Retrieval
