import Retrieval.Proofs.Schedule.Lining

/-!
# No job is lost or repeated

Whatever moves are made in whatever order, the entries that somebody came with are queued or wait
for room, the jobs begun are the first of those queued, and the counts tell how they came out. Only
the first stop mark ends the loop: what is before it is served, however it comes out, and what is
behind it stays.
-/

namespace Retrieval

namespace Worker

variable {σ ι ρ α : Type} {w : Work σ ι ρ α} {k : Worker ι ρ} {notes : Notes ι α}
  {given queued : List (Entry ι)}

theorem Sound.play (h : Sound w 0 0 k notes queued) (moves : List (Move ι)) (world : σ) :
    ∃ k' world' notes', Worker.play w.noted moves k (world, notes) = (k', world', notes') ∧
      Sound w 0 0 k' notes' (queued ++ admissions w moves k world) := by
  induction moves generalizing k notes queued world with
  | nil =>
      rw [admissions, List.append_nil]
      exact ⟨k, world, notes, rfl, h⟩
  | cons m rest ih =>
      obtain ⟨k₁, world₁, notes₁, hmove, h₁⟩ := h.move world m
      obtain ⟨k₂, world₂, notes₂, hplay, h₂⟩ := ih h₁ world₁
      have hunnoted := unnoted_move w k (world, notes) m
      rw [hmove] at hunnoted
      refine ⟨k₂, world₂, notes₂, ?_, ?_⟩
      · rw [Worker.play, hmove]
        exact hplay
      · rw [admissions, ← hunnoted, ← List.append_assoc]
        exact h₂

theorem Lined.play {capacity : Int} (h : Lined capacity [] k given queued)
    (moves : List (Move ι)) (world : σ) :
    Lined capacity [] (Worker.play w moves k world).1 (given ++ moves.filterMap Move.entry?)
      (queued ++ admissions w moves k world) := by
  induction moves generalizing k given queued world with
  | nil =>
      rw [admissions, List.filterMap_nil, List.append_nil, List.append_nil]
      exact h
  | cons m rest ih =>
      have hrest := ih (h.move (w := w) world m) (Worker.move w k world m).2
      have hentries : (m :: rest).filterMap Move.entry? =
          m.entry?.toList ++ rest.filterMap Move.entry? := by
        cases he : m.entry? <;> simp [he]
      rw [hentries, admissions, ← List.append_assoc, ← List.append_assoc]
      exact hrest

theorem sound_new (w : Work σ ι ρ α) (capacity : Int) :
    Sound w 0 0 (new capacity) Notes.none [] where
  order := rfl
  handled := rfl
  given := .nil
  left _ h := nomatch h
  processed := rfl
  failed := rfl
  unfinished := rfl
  room h := le_of_lt h
  loop := rfl
  idle h := absurd rfl h
  fresh _ := rfl

theorem lined_new (capacity : Int) : Lined capacity [] (new capacity : Worker ι ρ) [] [] where
  capacity := rfl
  everyone := rfl
  line h := absurd rfl h

/-- What is true of a worker at every moment, of its notes, of the entries that somebody came with
and of those that were queued. -/
structure Conserved (w : Work σ ι ρ α) (capacity : Int) (k : Worker ι ρ) (notes : Notes ι α)
    (given queued : List (Entry ι)) : Prop where
  /-- Every entry that somebody came with is queued or waits for room. -/
  kept : given.Perm (queued ++ (k.blocked ++ k.retried))
  room : 0 < capacity → (k.queue.length : Int) ≤ capacity
  /-- The jobs begun are the first that were queued, each once and in order. -/
  begun : notes.begun.map .job <+: queued
  serving : k.isOver = false → queued = notes.begun.map .job ++ k.queue
  /-- Behind the first stop mark nothing is begun, and before it everything has ended. -/
  stopped : k.isOver = true →
    queued = notes.begun.map .job ++ .stop :: k.queue ∧ notes.ended.length = notes.begun.length
  outcomes : List.Forall₂ w.MayGive (notes.begun.take notes.ended.length) notes.ended
  inFlight : k.inFlight ≤ 1
  processed : k.processed = notes.ended.countP (·.isOk)
  failed : k.failed = notes.ended.countP (!·.isOk)
  counted : k.processed + k.failed + k.inFlight = notes.begun.length
  unfinished : k.unfinished = k.queue.length + k.inFlight
  /-- A loop that runs is somewhere: no failure ends it. -/
  loop : k.running = true → k.idle.length + k.called + k.inFlight = 1
  /-- Where nothing can go on, a loop that runs has served everybody. -/
  served : k.running = true → k.ready = [] → k.asleep = [] →
    given.Perm (notes.begun.map .job) ∧ notes.ended.length = notes.begun.length

theorem Sound.inFlight_le (h : Sound w 0 0 k notes queued) : k.inFlight ≤ 1 := by
  have hloop := h.loop
  split at hloop <;> omega

theorem countP_isOk (outcomes : List (Outcome α)) :
    outcomes.countP (·.isOk) + outcomes.countP (!·.isOk) = outcomes.length := by
  rw [List.length_eq_countP_add_countP (·.isOk)]
  simp

theorem Sound.loop_eq (h : Sound w 0 0 k notes queued) (hrunning : k.running = true) :
    k.idle.length + k.called + k.inFlight = 1 := by
  have hloop := h.loop
  rwa [if_pos hrunning] at hloop

theorem Sound.queued_eq (h : Sound w 0 0 k notes queued) (hover : k.isOver = false) :
    queued = notes.begun.map .job ++ k.queue := by
  have horder := h.order
  rwa [hover] at horder

theorem Sound.stopped (h : Sound w 0 0 k notes queued) (hover : k.isOver = true) :
    queued = notes.begun.map .job ++ .stop :: k.queue ∧
      notes.ended.length = notes.begun.length := by
  have horder := h.order
  have hhandled := h.handled
  have hloop := h.loop
  have hrunning : k.running = false := by
    rw [isOver, Bool.and_eq_true] at hover
    simpa using hover.2
  rw [hover] at horder
  rw [hrunning, if_neg Bool.false_ne_true] at hloop
  exact ⟨horder, by omega⟩

theorem Lined.kept {capacity : Int} (h : Lined capacity [] k given queued) :
    given.Perm (queued ++ (k.blocked ++ k.retried)) := by
  have heveryone := h.everyone
  rw [Multiset.coe_nil, add_zero, add_assoc, Multiset.coe_add, Multiset.coe_add] at heveryone
  exact Multiset.coe_eq_coe.1 heveryone

/-- A loop that waits while nobody else can go on has an empty queue, and then nobody can be in line
for room. -/
theorem Sound.served {capacity : Int} (h : Sound w 0 0 k notes queued)
    (hline : Lined capacity [] k given queued) (hrunning : k.running = true)
    (hready : k.ready = []) (hasleep : k.asleep = []) :
    given.Perm (notes.begun.map .job) ∧ notes.ended.length = notes.begun.length := by
  have hhandled := h.handled
  have hgiven := hline.kept
  have hflight : k.inFlight = 0 := by simp [Worker.inFlight, rests, hready, hasleep]
  have hcalled : k.called = 0 := by simp [called, hready]
  have hidle : k.idle ≠ [] := fun hidle => by
    have hloop := h.loop_eq hrunning
    rw [hidle, List.length_nil] at hloop
    omega
  have hqueue := h.idle hidle
  have hretried : k.retried = [] := by simp [retried, hready]
  have hblocked : k.blocked = [] := by
    by_contra hne
    obtain ⟨hpos, hfull⟩ := hline.line hne
    rw [hqueue, hretried] at hfull
    exact absurd hfull (not_le.2 hpos)
  have hover : k.isOver = false := by
    rw [isOver, hrunning]
    exact Bool.and_false _
  rw [hblocked, hretried, h.queued_eq hover, hqueue, List.append_nil, List.append_nil,
    List.append_nil] at hgiven
  exact ⟨hgiven, by omega⟩

theorem Conserved.of_sound {capacity : Int} (h : Sound w 0 0 k notes queued)
    (hline : Lined capacity [] k given queued) : Conserved w capacity k notes given queued where
  kept := hline.kept
  room := hline.capacity ▸ h.room
  begun := ⟨_, h.order.symm⟩
  serving := h.queued_eq
  stopped := h.stopped
  outcomes := h.given
  inFlight := h.inFlight_le
  processed := h.processed
  failed := h.failed
  counted := by
    have hhandled := h.handled
    have hcount := countP_isOk notes.ended
    rw [h.processed, h.failed]
    omega
  unfinished := h.unfinished
  loop := h.loop_eq
  served := h.served hline

/-- Whatever moves are made in whatever order, no job is lost and none is begun twice. There is one
loop from the first launch on. -/
theorem play_conserves (w : Work σ ι ρ α) (capacity : Int) (world : σ) (moves : List (Move ι)) :
    ∃ k world' notes,
      Worker.play w.noted moves (new capacity) (world, Notes.none) = (k, world', notes) ∧
      Worker.play w moves (new capacity) world = (k, world') ∧
      Conserved w capacity k notes (moves.filterMap Move.entry?)
        (admissions w moves (new capacity) world) ∧
      (k.loops ≠ 0 ↔ .launch ∈ moves) ∧ k.loops ≤ 1 := by
  obtain ⟨k, world', notes, hplay, hsound⟩ := (sound_new w capacity).play moves world
  have hunnoted := unnoted_play w moves (new capacity) (world, Notes.none)
  rw [hplay] at hunnoted
  have hlined := (lined_new capacity).play (w := w) moves world
  obtain ⟨hlaunched, hone⟩ := loops_play w moves (new capacity) world
  rw [← hunnoted] at hlined hlaunched hone
  refine ⟨k, world', notes, hplay, hunnoted.symm, .of_sound hsound hlined, ?_, hone (Nat.zero_le 1)⟩
  exact hlaunched.trans (or_iff_right fun h => h rfl)

/-- A job fails, the next one is served, and the one behind the stop mark is not. -/
example :
    let w : Work Unit Nat Unit Unit :=
      ⟨fun n s => (.finished (if n = 0 then throw (.badValue "none") else pure ()), s),
        fun _ s => (pure (), s), fun _ s => s⟩
    let (k, _, notes) := play w.noted
      [.put (.job 0), .launch, .put (.job 1), .put .stop, .put (.job 2), .turn 0] (new 0)
      ((), Notes.none)
    notes.begun = [0, 1] ∧ k.processed = 1 ∧ k.failed = 1 ∧ k.queue = [.job 2] ∧
      k.running = false := by decide

end Worker

end Retrieval
