import Mathlib.Data.List.Forall2
import Mathlib.Data.List.Perm.Basic
import Retrieval.Proofs.Schedule.Moves

/-!
# Where the loop of a worker stands

The loop is somewhere while it runs: it waits for an entry, is called to one, waits with a job, or
is in hand while it serves. The jobs begun are the first of those queued, all but the last of them
have ended, and what counts as unfinished is queued or under way. Each thing that a loop does keeps
this, and so does each move.
-/

namespace Retrieval

namespace Worker

variable {σ ι ρ α : Type}

/-- How things stand, with a loop in hand or not, and with a job that it serves or not. -/
structure Sound (w : Work σ ι ρ α) (hand busy : Nat) (k : Worker ι ρ) (notes : Notes ι α)
    (queued : List (Entry ι)) : Prop where
  order : queued = notes.begun.map .job ++ ((if k.isOver then [.stop] else []) ++ k.queue)
  handled : notes.begun.length = notes.ended.length + k.inFlight + busy
  given : List.Forall₂ w.MayGive (notes.begun.take notes.ended.length) notes.ended
  left : ∀ rest ∈ k.rests, ∀ item ∈ notes.begun.getLast?, w.Leaves item rest
  processed : k.processed = notes.ended.countP (·.isOk)
  failed : k.failed = notes.ended.countP (!·.isOk)
  unfinished : k.unfinished = k.queue.length + k.inFlight + busy
  room : 0 < k.capacity → (k.queue.length : Int) ≤ k.capacity
  loop : k.idle.length + k.called + k.inFlight + hand = if k.running then 1 else 0
  idle : k.idle ≠ [] → k.queue = []
  fresh : k.loops = 0 → k.running = false

namespace Sound

variable {w : Work σ ι ρ α} {hand busy : Nat} {k : Worker ι ρ} {notes : Notes ι α}
  {queued : List (Entry ι)}

theorem moved (h : Sound w hand busy k notes queued) {hand' busy' : Nat} {idle : List Nat}
    {blocked : List (Entry ι)} {ready : List (WorkerTurn ι ρ)} {asleep : List (Timer ρ)}
    (hleft : ∀ rest ∈ asleep.map (·.rest) ++ ready.filterMap WorkerTurn.rest?,
      ∀ item ∈ notes.begun.getLast?, w.Leaves item rest)
    (hflight : (asleep.map (·.rest) ++ ready.filterMap WorkerTurn.rest?).length + busy' =
      k.inFlight + busy)
    (hloop : idle.length + ready.countP WorkerTurn.isCall + hand' + busy =
      k.idle.length + k.called + hand + busy')
    (hidle : idle ≠ [] → k.queue = []) :
    Sound w hand' busy' { k with idle, blocked, ready, asleep } notes queued := by
  have hflight' : ({ k with idle, blocked, ready, asleep } : Worker ι ρ).inFlight + busy' =
      k.inFlight + busy := hflight
  have hcalled : ({ k with idle, blocked, ready, asleep } : Worker ι ρ).called =
      ready.countP WorkerTurn.isCall := rfl
  have hhandled := h.handled
  have hunfinished := h.unfinished
  have hone := h.loop
  exact { h with
    handled := by omega
    left := hleft
    unfinished := by
      dsimp only
      omega
    loop := by
      dsimp only
      omega
    idle := hidle }

theorem retrying (h : Sound w hand busy k notes queued) {blocked : List (Entry ι)}
    {ready : List (WorkerTurn ι ρ)} (hcalled : ready.countP WorkerTurn.isCall = k.called)
    (hrests : (ready.filterMap WorkerTurn.rest?).Perm (k.ready.filterMap WorkerTurn.rest?)) :
    Sound w hand busy { k with blocked, ready } notes queued := by
  have hperm : (k.asleep.map (·.rest) ++ ready.filterMap WorkerTurn.rest?).Perm k.rests :=
    hrests.append_left _
  refine h.moved (fun rest hrest => h.left rest (hperm.mem_iff.1 hrest)) ?_ ?_ h.idle
  · rw [hperm.length_eq]
    rfl
  · rw [hcalled]

theorem wakePut (h : Sound w hand busy k notes queued) :
    Sound w hand busy k.wakePut notes queued := by
  unfold Worker.wakePut
  split
  · exact h
  · exact h.retrying (WorkerTurn.calls_append k.ready _)
      (.of_eq (WorkerTurn.rests_append k.ready rfl))

theorem wakeLoop (h : Sound w hand busy k notes queued) :
    Sound w hand busy k.wakeLoop notes queued ∧ k.wakeLoop.idle = [] := by
  unfold Worker.wakeLoop
  split
  · rename_i hidle
    exact ⟨h, hidle⟩
  · rename_i loop rest hidle
    have hloop := h.loop
    have hone : (if k.running then 1 else 0) ≤ 1 := by split <;> decide
    rw [hidle, List.length_cons] at hloop
    have hrest : rest = [] := List.length_eq_zero_iff.1 (by omega)
    refine ⟨h.moved ?_ ?_ ?_ fun hne => absurd hrest hne, hrest⟩
    · rw [WorkerTurn.rests_append k.ready rfl]
      exact h.left
    · rw [WorkerTurn.rests_append k.ready rfl]
      rfl
    · rw [hidle, List.length_cons, WorkerTurn.calls_append]
      show _ + (k.called + 1) + _ + _ = _
      omega

theorem append (h : Sound w hand busy k notes queued) (hidle : k.idle = [])
    (hroom : k.isFull = false) (entry : Entry ι) :
    Sound w hand busy { k with queue := k.queue ++ [entry], unfinished := k.unfinished + 1 } notes
      (queued ++ [entry]) := by
  have hlength : (k.queue ++ [entry]).length = k.queue.length + 1 := List.length_append
  have hunfinished := h.unfinished
  exact { h with
    order := by
      rw [h.order]
      simp only [List.append_assoc]
      rfl
    unfinished := by
      show k.unfinished + 1 = (k.queue ++ [entry]).length + k.inFlight + busy
      omega
    room := fun hcapacity => by
      have hfull : ¬ k.capacity ≤ k.queue.length := by simpa [isFull, hcapacity] using hroom
      dsimp only
      omega
    idle := fun hne => absurd hidle hne }

theorem put (h : Sound w hand busy k notes queued) (entry : Entry ι) :
    Sound w hand busy (k.put entry) notes (queued ++ if k.isFull then [] else [entry]) := by
  unfold Worker.put
  cases hfull : k.isFull with
  | true =>
      rw [if_pos rfl, if_pos rfl, List.append_nil]
      exact h.retrying rfl (.refl _)
  | false =>
      obtain ⟨hwake, hidle⟩ := h.wakeLoop
      -- It makes no difference whether the loop is called before the entry is there.
      have hcomm : ({ k with queue := k.queue ++ [entry], unfinished := k.unfinished + 1 } :
          Worker ι ρ).wakeLoop = { k.wakeLoop with
            queue := k.wakeLoop.queue ++ [entry], unfinished := k.wakeLoop.unfinished + 1 } := by
        unfold Worker.wakeLoop
        cases hk : k.idle <;> simp only [hk]
      have hsame : k.wakeLoop.isFull = k.isFull := by
        unfold Worker.wakeLoop
        split <;> rfl
      rw [if_neg Bool.false_ne_true, if_neg Bool.false_ne_true, hcomm]
      exact hwake.append hidle (hsame.trans hfull) entry

section Loop

theorem running (h : Sound w 1 busy k notes queued) : k.running = true := by
  have hloop := h.loop
  by_contra hrunning
  rw [if_neg hrunning] at hloop
  omega

/-- A loop in hand is nowhere else, and no job is under way. -/
theorem free (h : Sound w 1 busy k notes queued) :
    k.idle = [] ∧ k.called = 0 ∧ k.rests = [] ∧ k.isOver = false := by
  have hloop := h.loop
  rw [if_pos h.running] at hloop
  refine ⟨List.length_eq_zero_iff.1 (by omega), by omega, List.length_eq_zero_iff.1 ?_, ?_⟩
  · have : k.rests.length = k.inFlight := rfl
    omega
  · rw [isOver, h.running]
    exact Bool.and_false _

theorem takeJob (h : Sound w 1 0 k notes queued) {item : ι} {rest : List (Entry ι)}
    (hqueue : k.queue = .job item :: rest) :
    Sound w 1 1 { k with queue := rest } (notes.begin item) queued := by
  obtain ⟨hidle, hcalled, hrests, hover⟩ := h.free
  have hhandled := h.handled
  have hunfinished := h.unfinished
  have hflight : k.inFlight = 0 := congrArg List.length hrests
  rw [hqueue, List.length_cons] at hunfinished
  exact { h with
    order := by
      have horder := h.order
      rw [hover, hqueue] at horder
      rw [horder]
      show _ = _ ++ ((if k.isOver then [Entry.stop] else []) ++ rest)
      rw [hover]
      simp [Notes.begin]
    handled := by
      show (notes.begun ++ [item]).length = notes.ended.length + k.inFlight + 1
      rw [List.length_append, List.length_singleton]
      omega
    given := by
      show List.Forall₂ w.MayGive ((notes.begun ++ [item]).take notes.ended.length) notes.ended
      rw [List.take_append_of_le_length (by omega)]
      exact h.given
    left := fun r hr => by
      change r ∈ k.rests at hr
      rw [hrests] at hr
      exact absurd hr List.not_mem_nil
    unfinished := by
      show k.unfinished = rest.length + k.inFlight + 1
      omega
    room := fun hcapacity => by
      have hroom := h.room hcapacity
      rw [hqueue, List.length_cons] at hroom
      dsimp only
      omega
    idle := fun hne => absurd hidle hne }

theorem forall₂_take_concat {R : ι → Outcome α → Prop} {items : List ι}
    {outcomes : List (Outcome α)} {outcome : Outcome α}
    (h : List.Forall₂ R (items.take outcomes.length) outcomes)
    (hlength : items.length = outcomes.length + 1)
    (hlast : ∀ item ∈ items.getLast?, R item outcome) :
    List.Forall₂ R (items.take (outcomes ++ [outcome]).length) (outcomes ++ [outcome]) := by
  have hne : items ≠ [] := List.ne_nil_of_length_pos (by omega)
  have hall : (outcomes ++ [outcome]).length = items.length := by
    rw [List.length_append, List.length_singleton, hlength]
  have hbefore : items.take outcomes.length = items.dropLast := by
    rw [List.dropLast_eq_take, hlength, Nat.add_sub_cancel]
  rw [hall, List.take_length, ← List.dropLast_concat_getLast hne]
  exact List.rel_append (hbefore ▸ h)
    (.cons (hlast _ (List.getLast?_eq_some_getLast hne)) .nil)

theorem finish (h : Sound w 1 1 k notes queued) (outcome : Outcome α)
    (hgive : ∀ item ∈ notes.begun.getLast?, w.MayGive item outcome) :
    Sound w 1 0 (k.count outcome).entryDone (notes.finish outcome) queued := by
  obtain ⟨-, -, hrests, -⟩ := h.free
  have hflight : k.inFlight = 0 := congrArg List.length hrests
  have hhandled := h.handled
  have hunfinished := h.unfinished
  have hgiven := forall₂_take_concat h.given (by omega) hgive
  have hcount : (k.count outcome).entryDone =
      { k with
        processed := k.processed + if outcome.isOk then 1 else 0
        failed := k.failed + if outcome.isOk then 0 else 1
        unfinished := k.unfinished - 1
        joins := if k.unfinished ≤ 1 then k.joins.map fun _ => true else k.joins } := by
    cases outcome <;> rfl
  rw [hcount]
  exact { h with
    handled := by
      show notes.begun.length = (notes.ended ++ [outcome]).length + k.inFlight + 0
      rw [List.length_append, List.length_singleton]
      omega
    given := hgiven
    processed := by
      show _ = (notes.ended ++ [outcome]).countP (·.isOk)
      rw [List.countP_append, List.countP_singleton, ← h.processed]
    failed := by
      show _ = (notes.ended ++ [outcome]).countP (!·.isOk)
      rw [List.countP_append, List.countP_singleton, ← h.failed]
      cases outcome.isOk <;> rfl
    unfinished := by
      show k.unfinished - 1 = k.queue.length + k.inFlight + 0
      omega }

theorem wait (h : Sound w 1 1 k notes queued) (rest : ρ) {ready : List (WorkerTurn ι ρ)}
    {asleep : List (Timer ρ)}
    (hleaves : ∀ item ∈ notes.begun.getLast?, w.Leaves item rest)
    (hcalled : ready.countP WorkerTurn.isCall = k.called)
    (hrests : (asleep.map (·.rest) ++ ready.filterMap WorkerTurn.rest?).Perm (rest :: k.rests)) :
    Sound w 0 0 { k with ready, asleep } notes queued := by
  refine h.moved ?_ ?_ ?_ h.idle
  · intro r hr
    rcases List.mem_cons.1 (hrests.mem_iff.1 hr) with rfl | hr
    · exact hleaves
    · exact h.left r hr
  · exact hrests.length_eq
  · rw [hcalled]

theorem idles (h : Sound w 1 0 k notes queued) (hqueue : k.queue = []) (loop : Nat) :
    Sound w 0 0 { k with idle := k.idle ++ [loop] } notes queued := by
  refine h.moved h.left rfl ?_ fun _ => hqueue
  rw [List.length_append, List.length_singleton]
  show _ + k.called + _ + _ = _
  omega

theorem stop (h : Sound w 1 0 k notes queued) {rest : List (Entry ι)}
    (hqueue : k.queue = .stop :: rest) :
    Sound w 0 0 { ({ k with queue := rest } : Worker ι ρ).entryDone with running := false } notes
      queued := by
  obtain ⟨hidle, hcalled, hrests, hover⟩ := h.free
  have hflight : k.inFlight = 0 := congrArg List.length hrests
  have hloops : k.loops ≠ 0 := fun hzero => by
    have := h.fresh hzero
    rw [h.running] at this
    cases this
  have hunfinished := h.unfinished
  rw [hqueue, List.length_cons] at hunfinished
  exact { h with
    order := by
      have horder := h.order
      rw [hover, hqueue] at horder
      rw [horder]
      show _ = _ ++ ((if (k.loops != 0 && !false) then [Entry.stop] else []) ++ rest)
      simp [hloops]
    unfinished := by
      show k.unfinished - 1 = rest.length + k.inFlight + 0
      omega
    room := fun hcapacity => by
      have hroom := h.room hcapacity
      rw [hqueue, List.length_cons] at hroom
      show (rest.length : Int) ≤ k.capacity
      omega
    loop := by
      show k.idle.length + k.called + k.inFlight + 0 = 0
      rw [hidle, List.length_nil]
      omega
    idle := fun hne => absurd hidle hne
    fresh := fun _ => rfl }

theorem launch (h : Sound w 0 0 k notes queued) (hloops : k.loops = 0) :
    Sound w 1 0 { k with running := true, loops := k.loops + 1 } notes queued := by
  have hrunning := h.fresh hloops
  have hloop := h.loop
  rw [hrunning, if_neg Bool.false_ne_true] at hloop
  exact { h with
    order := by
      have horder := h.order
      rw [isOver, hloops] at horder
      rw [horder]
      show _ = _ ++ ((if (k.loops + 1 != 0 && !true) then [Entry.stop] else []) ++ k.queue)
      rw [Bool.not_true, Bool.and_false]
      rfl
    loop := by
      show k.idle.length + k.called + k.inFlight + 1 = 1
      omega
    fresh := fun hzero => absurd hzero (Nat.succ_ne_zero _) }

/-- What a loop does from an entry to its next wait keeps everything in its place. -/
theorem drain (h : Sound w 1 0 k notes queued) (loop : Nat) {entries : List (Entry ι)}
    (hqueue : k.queue = entries) (world : σ) :
    ∃ k' world' notes', Worker.drain w.noted loop entries k (world, notes) = (k', world', notes') ∧
      Sound w 0 0 k' notes' queued := by
  induction entries generalizing k world notes with
  | nil =>
      refine ⟨_, _, _, rfl, ?_⟩
      rw [← hqueue]
      exact h.idles hqueue loop
  | cons entry rest ih =>
      cases entry with
      | stop =>
          refine ⟨_, _, _, rfl, ?_⟩
          rw [wakePut_queue]
          exact h.wakePut.stop ((queue_wakePut k).trans hqueue)
      | job item =>
          have hjob := (h.takeJob hqueue).wakePut
          have hlast : (notes.begin item).begun.getLast? = some item := List.getLast?_concat
          have hrest : ({ k with queue := rest } : Worker ι ρ).wakePut.queue = rest :=
            queue_wakePut _
          rw [Worker.drain, Work.noted_begin]
          dsimp only
          generalize ({ k with queue := rest } : Worker ι ρ).wakePut = taken at hjob hrest ⊢
          rcases hb : w.begin item world with ⟨progress, world'⟩
          have hbegin : (w.begin item world).1 = progress := congrArg Prod.fst hb
          cases progress with
          | finished outcome =>
              have hdone := hjob.finish outcome fun i hi =>
                Option.some.inj (hlast.symm.trans hi) ▸ Or.inl ⟨world, hbegin⟩
              exact ih hdone ((queue_done _ _).trans hrest) world'
          | yielded r =>
              refine ⟨_, _, _, rfl, hjob.wait r ?_ (WorkerTurn.calls_append _ _) ?_⟩
              · exact fun i hi => Option.some.inj (hlast.symm.trans hi) ▸ ⟨world, Or.inl hbegin⟩
              · rw [List.filterMap_append, ← List.append_assoc]
                exact List.perm_append_singleton r _
          | sleeping seconds r =>
              refine ⟨_, _, _, rfl, hjob.wait r ?_ rfl ?_⟩
              · exact fun i hi =>
                  Option.some.inj (hlast.symm.trans hi) ▸ ⟨world, Or.inr ⟨seconds, hbegin⟩⟩
              · rw [List.map_append, List.append_assoc]
                exact List.perm_middle

end Loop

section Turns

variable {t : WorkerTurn ι ρ} {later : List (WorkerTurn ι ρ)}

theorem pickRetry (h : Sound w 0 0 k notes queued) {entry : Entry ι}
    (hready : k.ready.Perm (.retry entry :: later)) :
    Sound w 0 0 { k with ready := later } notes queued :=
  h.retrying (hready.countP_eq WorkerTurn.isCall).symm (hready.filterMap WorkerTurn.rest?).symm

theorem pickServe (h : Sound w 0 0 k notes queued) {loop : Nat}
    (hready : k.ready.Perm (.serve loop :: later)) :
    Sound w 1 0 { k with ready := later } notes queued := by
  have hcalled : k.called = later.countP WorkerTurn.isCall + 1 := by
    rw [called, hready.countP_eq, List.countP_cons_of_pos rfl]
  have hrests : (k.asleep.map (·.rest) ++ later.filterMap WorkerTurn.rest?).Perm k.rests :=
    ((hready.filterMap WorkerTurn.rest?).append_left _).symm
  refine h.moved (fun rest hrest => h.left rest (hrests.mem_iff.1 hrest)) ?_ ?_ h.idle
  · rw [hrests.length_eq]
    rfl
  · omega

/-- The job that is gone on with is the one that was begun last. -/
theorem pickResume (h : Sound w 0 0 k notes queued) {loop : Nat} {rest : ρ}
    (hready : k.ready.Perm (.resume loop rest :: later)) :
    Sound w 1 1 { k with ready := later } notes queued ∧
      ∀ item ∈ notes.begun.getLast?, w.Leaves item rest := by
  have hcalled : k.called = later.countP WorkerTurn.isCall := by
    rw [called, hready.countP_eq, List.countP_cons_of_neg Bool.false_ne_true]
  have hrests : k.rests.Perm
      (rest :: (k.asleep.map (·.rest) ++ later.filterMap WorkerTurn.rest?)) :=
    ((hready.filterMap WorkerTurn.rest?).append_left _).trans List.perm_middle
  refine ⟨h.moved ?_ ?_ ?_ h.idle, h.left rest (hrests.mem_iff.2 List.mem_cons_self)⟩
  · exact fun r hr => h.left r (hrests.mem_iff.2 (List.mem_cons_of_mem _ hr))
  · exact hrests.length_eq.symm
  · omega

end Turns

theorem wakeDue (h : Sound w 0 0 k notes queued) (due : Rat) :
    Sound w 0 0 (k.wakeDue due) notes queued := by
  unfold Worker.wakeDue
  rw [List.partition_eq_filter_filter]
  have hsleep := (List.filter_append_perm (fun t => decide (t.due ≤ due)) k.asleep).map (·.rest)
  rw [List.map_append] at hsleep
  generalize k.asleep.filter (fun t => decide (t.due ≤ due)) = now at hsleep ⊢
  change (_ ++ (k.asleep.filter fun t => !decide (t.due ≤ due)).map _).Perm _ at hsleep
  change Sound w 0 0 { k with
    clock := due
    ready := k.ready ++ WorkerTurn.resumed now
    asleep := k.asleep.filter fun t => !decide (t.due ≤ due) } notes queued
  generalize k.asleep.filter (fun t => !decide (t.due ≤ due)) = later at hsleep ⊢
  have hcalled : (k.ready ++ WorkerTurn.resumed now).countP WorkerTurn.isCall = k.called := by
    rw [List.countP_append, WorkerTurn.calls_resumed]
    rfl
  have hperm : (later.map (·.rest) ++
      (k.ready ++ WorkerTurn.resumed now).filterMap WorkerTurn.rest?).Perm k.rests := by
    rw [List.filterMap_append, WorkerTurn.rests_resumed, ← List.append_assoc]
    refine List.perm_append_comm.trans ?_
    rw [← List.append_assoc]
    exact hsleep.append_right _
  have hmoved : Sound w 0 0
      { k with ready := k.ready ++ WorkerTurn.resumed now, asleep := later } notes queued :=
    h.moved (fun rest hrest => h.left rest (hperm.mem_iff.1 hrest)) hperm.length_eq
      (by rw [hcalled]) h.idle
  exact { hmoved with }

theorem take (h : Sound w 0 0 k notes queued) {t : WorkerTurn ι ρ} {later : List (WorkerTurn ι ρ)}
    (hready : k.ready.Perm (t :: later)) (world : σ) :
    ∃ k' world' notes',
      ({ k with ready := later } : Worker ι ρ).take w.noted (world, notes) t =
        (k', world', notes') ∧
      Sound w 0 0 k' notes' (queued ++ k.admittedBy t) := by
  cases t with
  | retry entry => exact ⟨_, _, _, rfl, (h.pickRetry hready).put entry⟩
  | serve loop =>
      rw [admittedBy, List.append_nil]
      exact (h.pickServe hready).drain loop rfl world
  | resume loop rest =>
      obtain ⟨hpick, hleaves⟩ := h.pickResume hready
      have hdone := hpick.finish (w.resume rest world).1 fun item hitem =>
        Or.inr ⟨rest, world, hleaves item hitem, rfl⟩
      rw [admittedBy, List.append_nil, Worker.take, Work.noted_resume]
      exact hdone.drain loop (queue_done _ _) (w.resume rest world).2

theorem move (h : Sound w 0 0 k notes queued) (world : σ) (m : Move ι) :
    ∃ k' world' notes', k.move w.noted (world, notes) m = (k', world', notes') ∧
      Sound w 0 0 k' notes' (queued ++ k.admitted m) := by
  cases m with
  | put entry => exact ⟨_, _, _, rfl, h.put entry⟩
  | join =>
      rw [admitted, List.append_nil]
      exact ⟨_, _, _, rfl, { h with }⟩
  | launch =>
      rw [admitted, List.append_nil, Worker.move]
      by_cases hloops : k.loops = 0
      · rw [if_pos hloops]
        exact (h.launch hloops).drain k.loops rfl world
      · rw [if_neg hloops]
        exact ⟨_, _, _, rfl, h⟩
  | turn position =>
      rw [admitted, Worker.move]
      cases ht : k.ready[position]? with
      | none =>
          rw [Option.elim_none, List.append_nil]
          exact ⟨_, _, _, rfl, h⟩
      | some t =>
          rw [Option.elim_some]
          obtain ⟨hposition, ht⟩ := List.getElem?_eq_some_iff.1 ht
          have hready : k.ready.Perm (t :: k.ready.eraseIdx position) :=
            ht ▸ (List.getElem_cons_eraseIdx_perm hposition).symm
          exact h.take hready world
  | wake due =>
      rw [admitted, List.append_nil]
      exact ⟨_, _, _, rfl, h.wakeDue due⟩
  | clock instant =>
      rw [admitted, List.append_nil]
      exact ⟨_, _, _, rfl, { h with }⟩

end Sound

end Worker

end Retrieval
