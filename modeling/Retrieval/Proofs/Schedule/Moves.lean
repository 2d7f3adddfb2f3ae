import Mathlib.Data.List.Basic
import Retrieval.Proofs.Schedule.Noting
import Retrieval.Schedule.Worker

/-!
# The moves of a worker

Puts, stops, joins, one launch, the turns of those who can go on and the passing of time come in any
order. Letting everything run that can run, and letting time pass, are such moves too.
-/

namespace Retrieval

namespace WorkerTurn

variable {ι ρ : Type}

def isCall : WorkerTurn ι ρ → Bool
  | .serve _ => true
  | _ => false

def rest? : WorkerTurn ι ρ → Option ρ
  | .resume _ rest => some rest
  | _ => none

def entry? : WorkerTurn ι ρ → Option (Entry ι)
  | .retry entry => some entry
  | _ => none

theorem rests_append (ready : List (WorkerTurn ι ρ)) {t : WorkerTurn ι ρ} (h : t.rest? = none) :
    (ready ++ [t]).filterMap WorkerTurn.rest? = ready.filterMap WorkerTurn.rest? := by
  simp [h]

theorem calls_append (ready : List (WorkerTurn ι ρ)) (t : WorkerTurn ι ρ) :
    (ready ++ [t]).countP WorkerTurn.isCall =
      ready.countP WorkerTurn.isCall + if t.isCall then 1 else 0 := by
  rw [List.countP_append, List.countP_singleton]

theorem entries_append (ready : List (WorkerTurn ι ρ)) (t : WorkerTurn ι ρ) :
    (ready ++ [t]).filterMap entry? = ready.filterMap entry? ++ t.entry?.toList := by
  rw [List.filterMap_append]
  cases h : t.entry? <;> simp [h]

def resumed (timers : List (Timer ρ)) : List (WorkerTurn ι ρ) :=
  timers.map fun t => .resume t.number t.rest

theorem calls_resumed (timers : List (Timer ρ)) :
    (resumed timers : List (WorkerTurn ι ρ)).countP WorkerTurn.isCall = 0 := by
  simp [resumed, isCall]

theorem rests_resumed (timers : List (Timer ρ)) :
    (resumed timers : List (WorkerTurn ι ρ)).filterMap WorkerTurn.rest? = timers.map (·.rest) := by
  simp [resumed, Function.comp_def, rest?]

end WorkerTurn

namespace Worker

inductive Move (ι : Type)
  | put (entry : Entry ι)
  | join
  /-- The one loop is launched. -/
  | launch
  /-- One of those who can go on does so. -/
  | turn (position : Nat)
  /-- Time passes up to an instant, and jobs are due. -/
  | wake (due : Rat)
  | clock (instant : Rat)

def Move.entry? {ι : Type} : Move ι → Option (Entry ι)
  | .put entry => some entry
  | .join | .launch | .turn _ | .wake _ | .clock _ => none

section Play

variable {σ ι ρ α : Type} (w : Work σ ι ρ α)

def move (k : Worker ι ρ) (s : σ) : Move ι → Worker ι ρ × σ
  | .put entry => (k.put entry, s)
  | .join => (k.join, s)
  | .launch => if k.loops = 0 then k.launch w s else (k, s)
  | .turn position =>
      match k.ready[position]? with
      | some t => { k with ready := k.ready.eraseIdx position }.take w s t
      | none => (k, s)
  | .wake due => (k.wakeDue due, s)
  | .clock instant => ({ k with clock := instant }, s)

def play : List (Move ι) → Worker ι ρ → σ → Worker ι ρ × σ
  | [], k, s => (k, s)
  | m :: rest, k, s =>
      let (k, s) := k.move w s m
      play rest k s

end Play

section Unnoted

variable {σ ι ρ α : Type} (w : Work σ ι ρ α)

theorem unnoted_drain (loop : Nat) (entries : List (Entry ι)) (k : Worker ι ρ)
    (s : σ × Notes ι α) :
    unnoted (drain w.noted loop entries k s) = drain w loop entries k s.1 := by
  induction entries generalizing k s with
  | nil => rfl
  | cons entry rest ih =>
      cases entry with
      | stop => rfl
      | job item =>
          unfold drain
          rw [Work.noted_begin]
          rcases w.begin item s.1 with ⟨progress, world⟩
          cases progress with
          | finished outcome => exact ih _ _
          | yielded r => rfl
          | sleeping seconds r => rfl

theorem unnoted_take (k : Worker ι ρ) (s : σ × Notes ι α) (t : WorkerTurn ι ρ) :
    unnoted (k.take w.noted s t) = k.take w s.1 t := by
  cases t with
  | retry entry => rfl
  | serve loop => exact unnoted_drain w loop k.queue k s
  | resume loop rest => exact unnoted_drain w loop k.queue _ _

theorem unnoted_move (k : Worker ι ρ) (s : σ × Notes ι α) (m : Move ι) :
    unnoted (k.move w.noted s m) = k.move w s.1 m := by
  cases m with
  | put entry | join | wake due | clock instant => rfl
  | launch =>
      unfold move
      dsimp only
      split
      · exact unnoted_drain w k.loops k.queue _ s
      · rfl
  | turn position =>
      unfold move
      dsimp only
      split
      · exact unnoted_take w _ s _
      · rfl

/-- Notes change nothing about what they are taken of. -/
theorem unnoted_play (moves : List (Move ι)) (k : Worker ι ρ) (s : σ × Notes ι α) :
    unnoted (play w.noted moves k s) = play w moves k s.1 := by
  induction moves generalizing k s with
  | nil => rfl
  | cons m rest ih =>
      have hmove := unnoted_move w k s m
      rw [play, play, ← hmove]
      exact ih _ _

end Unnoted

section Places

variable {σ ι ρ α : Type}

def called (k : Worker ι ρ) : Nat := k.ready.countP WorkerTurn.isCall

def rests (k : Worker ι ρ) : List ρ := k.asleep.map (·.rest) ++ k.ready.filterMap WorkerTurn.rest?

def inFlight (k : Worker ι ρ) : Nat := k.rests.length

def retried (k : Worker ι ρ) : List (Entry ι) := k.ready.filterMap WorkerTurn.entry?

/-- The loop has taken a stop mark. -/
def isOver (k : Worker ι ρ) : Bool := k.loops != 0 && !k.running

theorem wakePut_queue (k : Worker ι ρ) (queue : List (Entry ι)) :
    ({ k with queue } : Worker ι ρ).wakePut = { k.wakePut with queue } := by
  unfold wakePut
  cases hk : k.blocked <;> simp only [hk]

theorem queue_wakePut (k : Worker ι ρ) : k.wakePut.queue = k.queue := by
  unfold wakePut
  split <;> rfl

theorem queue_done (k : Worker ι ρ) (outcome : Outcome α) :
    (k.count outcome).entryDone.queue = k.queue := by
  cases outcome <;> rfl

theorem loops_wakeLoop (k : Worker ι ρ) : k.wakeLoop.loops = k.loops := by
  unfold wakeLoop
  split <;> rfl

theorem loops_wakePut (k : Worker ι ρ) : k.wakePut.loops = k.loops := by
  unfold wakePut
  split <;> rfl

theorem loops_put (k : Worker ι ρ) (entry : Entry ι) : (k.put entry).loops = k.loops := by
  unfold put
  split
  · rfl
  · exact loops_wakeLoop _

theorem loops_done (k : Worker ι ρ) (outcome : Outcome α) :
    (k.count outcome).entryDone.loops = k.loops := by
  cases outcome <;> rfl

theorem loops_drain (w : Work σ ι ρ α) (loop : Nat) (entries : List (Entry ι)) (k : Worker ι ρ)
    (s : σ) : (drain w loop entries k s).1.loops = k.loops := by
  induction entries generalizing k s with
  | nil => rfl
  | cons entry rest ih =>
      have hwoken : ({ k with queue := rest } : Worker ι ρ).wakePut.loops = k.loops :=
        loops_wakePut _
      cases entry with
      | stop => exact hwoken
      | job item =>
          unfold drain
          rcases w.begin item s with ⟨progress, world⟩
          cases progress with
          | finished outcome =>
              dsimp only
              rw [ih, loops_done]
              exact hwoken
          | yielded r | sleeping seconds r => exact hwoken

theorem loops_take (w : Work σ ι ρ α) (k : Worker ι ρ) (s : σ) (t : WorkerTurn ι ρ) :
    (k.take w s t).1.loops = k.loops := by
  cases t with
  | retry entry => exact loops_put k entry
  | serve loop => exact loops_drain w loop k.queue k s
  | resume loop rest =>
      unfold take
      dsimp only
      rw [loops_drain, loops_done]

def admittedBy (k : Worker ι ρ) : WorkerTurn ι ρ → List (Entry ι)
  | .retry entry => if k.isFull then [] else [entry]
  | .serve _ | .resume _ _ => []

def admitted (k : Worker ι ρ) : Move ι → List (Entry ι)
  | .put entry => if k.isFull then [] else [entry]
  | .turn position => (k.ready[position]?).elim [] k.admittedBy
  | .join | .launch | .wake _ | .clock _ => []

end Places

section Running

variable {σ ι ρ α : Type} (w : Work σ ι ρ α)

/-- The entries that moves put on the queue, in this order. -/
def admissions : List (Move ι) → Worker ι ρ → σ → List (Entry ι)
  | [], _, _ => []
  | m :: rest, k, s => k.admitted m ++ admissions rest (k.move w s m).1 (k.move w s m).2

/-- Only the first launch makes a loop. -/
theorem loops_move (k : Worker ι ρ) (s : σ) (m : Move ι) :
    (k.move w s m).1.loops = k.loops ∨
      m = .launch ∧ k.loops = 0 ∧ (k.move w s m).1.loops = 1 := by
  cases m with
  | put entry => exact Or.inl (loops_put k entry)
  | join | wake due | clock instant => exact Or.inl rfl
  | launch =>
      unfold move
      dsimp only
      split
      · next hzero =>
        refine Or.inr ⟨rfl, hzero, ?_⟩
        rw [launch, loops_drain, hzero]
      · exact Or.inl rfl
  | turn position =>
      left
      unfold move
      dsimp only
      split
      · exact loops_take w _ s _
      · rfl

theorem loops_launch (k : Worker ι ρ) (s : σ) : (k.move w s .launch).1.loops ≠ 0 := by
  unfold move
  dsimp only
  split
  · next hzero =>
    rw [launch, loops_drain]
    exact Nat.succ_ne_zero _
  · assumption

theorem loops_play (moves : List (Move ι)) (k : Worker ι ρ) (s : σ) :
    ((play w moves k s).1.loops ≠ 0 ↔ k.loops ≠ 0 ∨ .launch ∈ moves) ∧
      (k.loops ≤ 1 → (play w moves k s).1.loops ≤ 1) := by
  induction moves generalizing k s with
  | nil => simp [play]
  | cons m rest ih =>
      obtain ⟨hlaunched, hone⟩ := ih (k.move w s m).1 (k.move w s m).2
      rw [play, hlaunched, List.mem_cons]
      rcases loops_move w k s m with hsame | ⟨rfl, hzero, hfirst⟩
      · rw [hsame] at hone ⊢
        refine ⟨⟨?_, ?_⟩, hone⟩
        · rintro (h | h)
          · exact Or.inl h
          · exact Or.inr (Or.inr h)
        · rintro (h | rfl | h)
          · exact Or.inl h
          · exact Or.inl (hsame ▸ loops_launch w k s)
          · exact Or.inr h
      · exact ⟨⟨fun _ => Or.inr (Or.inl rfl), fun _ => Or.inl (by omega)⟩,
          fun _ => hone (by omega)⟩

theorem play_append (before after : List (Move ι)) (k : Worker ι ρ) (s : σ) :
    play w (before ++ after) k s =
      play w after (play w before k s).1 (play w before k s).2 := by
  induction before generalizing k s with
  | nil => rfl
  | cons m rest ih => exact ih _ _

theorem exists_play_settleFor (turns : Nat) (k : Worker ι ρ) (s : σ) :
    ∃ moves, settleFor w turns k s = play w moves k s := by
  induction turns generalizing k s with
  | zero => exact ⟨[], rfl⟩
  | succ turns ih =>
      rw [settleFor]
      cases hready : k.ready with
      | nil => exact ⟨[], rfl⟩
      | cons t rest =>
          obtain ⟨moves, hmoves⟩ := ih (({ k with ready := rest } : Worker ι ρ).take w s t).1
            (({ k with ready := rest } : Worker ι ρ).take w s t).2
          refine ⟨.turn 0 :: moves, hmoves.trans ?_⟩
          rw [play, move, hready]
          rfl

/-- To let time pass is to wake those who are due, and to let everything run each time. -/
theorem exists_play_pass (instant : Rat) (k : Worker ι ρ) (s : σ) :
    ∃ moves, pass w instant k s = play w moves k s := by
  unfold pass
  generalize k.asleep.length + k.pendingWork = naps
  induction naps generalizing k s with
  | zero => exact ⟨[.clock instant], rfl⟩
  | succ naps ih =>
      rw [passFor]
      cases hdue : Timer.nextDue k.asleep with
      | none => exact ⟨[.clock instant], rfl⟩
      | some due =>
          dsimp only
          split
          · obtain ⟨settling, hsettle⟩ := exists_play_settleFor w
              (5 * (k.wakeDue due).pendingWork + 1) (k.wakeDue due) s
            obtain ⟨later, hlater⟩ := ih (play w settling (k.wakeDue due) s).1
              (play w settling (k.wakeDue due) s).2
            refine ⟨.wake due :: (settling ++ later), ?_⟩
            rw [settle, hsettle, hlater]
            exact (play_append w settling later (k.wakeDue due) s).symm
          · exact ⟨[.clock instant], rfl⟩

end Running

end Worker

end Retrieval
