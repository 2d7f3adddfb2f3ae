import Mathlib.Algebra.Order.Group.Multiset
import Retrieval.Proofs.Schedule.Attending

/-!
# Who waits for room on a queue

Entries that find no room wait in line. Each entry taken from the queue calls the first in line, so
nobody stays in line while there is room that nobody is called to.
-/

namespace Retrieval

namespace Worker

variable {σ ι ρ α : Type}

/-- Who puts an entry is in line while there is no room, with an entry in hand or not. As long as
somebody is in line, those called to the queue take all the room that there is. -/
structure Lined (capacity : Int) (hand : List (Entry ι)) (k : Worker ι ρ)
    (given queued : List (Entry ι)) : Prop where
  capacity : k.capacity = capacity
  everyone : (given : Multiset (Entry ι)) = ↑queued + ↑k.blocked + ↑k.retried + ↑hand
  line : k.blocked ≠ [] →
    0 < k.capacity ∧ k.capacity ≤ (k.queue.length + k.retried.length + hand.length : Nat)

namespace Lined

variable {w : Work σ ι ρ α} {capacity : Int} {hand : List (Entry ι)} {k : Worker ι ρ}
  {given queued : List (Entry ι)}

theorem come (h : Lined capacity [] k given queued) (entry : Entry ι) :
    Lined capacity [entry] k (given ++ [entry]) queued where
  capacity := h.capacity
  everyone := by
    rw [← Multiset.coe_add, h.everyone, Multiset.coe_nil, add_zero]
  line hne := by
    obtain ⟨hpos, hfull⟩ := h.line hne
    rw [List.length_nil] at hfull
    rw [List.length_singleton]
    exact ⟨hpos, by omega⟩

theorem calling (h : Lined capacity hand k given queued) {idle : List Nat}
    {ready : List (WorkerTurn ι ρ)} (hready : (ready.filterMap WorkerTurn.entry?).Perm k.retried) :
    Lined capacity hand { k with idle, ready } given queued := by
  have hretried : ({ k with idle, ready } : Worker ι ρ).retried.Perm k.retried := hready
  refine ⟨h.capacity, ?_, ?_⟩
  · rw [Multiset.coe_eq_coe.2 hretried]
    exact h.everyone
  · rw [hretried.length_eq]
    exact h.line

theorem wakeLoop (h : Lined capacity hand k given queued) :
    Lined capacity hand k.wakeLoop given queued := by
  unfold Worker.wakeLoop
  split
  · exact h
  · rename_i loop rest _
    apply h.calling
    rw [WorkerTurn.entries_append]
    exact .of_eq (List.append_nil _)

theorem put {entry : Entry ι} (h : Lined capacity [entry] k given queued) :
    Lined capacity [] (k.put entry) given (queued ++ if k.isFull then [] else [entry]) := by
  unfold Worker.put
  cases hfull : k.isFull with
  | true =>
      have hroom : 0 < k.capacity ∧ k.capacity ≤ k.queue.length := by
        simpa [isFull] using hfull
      rw [if_pos rfl, if_pos rfl, List.append_nil]
      refine ⟨h.capacity, ?_, fun _ => ⟨hroom.1, ?_⟩⟩
      · have hretried : ({ k with blocked := k.blocked ++ [entry] } : Worker ι ρ).retried =
            k.retried := rfl
        rw [h.everyone, hretried, ← Multiset.coe_add, Multiset.coe_nil, add_zero]
        ac_rfl
      · dsimp only
        omega
  | false =>
      rw [if_neg Bool.false_ne_true, if_neg Bool.false_ne_true]
      apply wakeLoop
      refine ⟨h.capacity, ?_, fun hne => ?_⟩
      · have hretried : ({ k with
            queue := k.queue ++ [entry], unfinished := k.unfinished + 1 } : Worker ι ρ).retried =
              k.retried := rfl
        rw [h.everyone, hretried, ← Multiset.coe_add, Multiset.coe_nil, add_zero]
        ac_rfl
      · obtain ⟨hpos, hline⟩ := h.line hne
        refine ⟨hpos, ?_⟩
        rw [List.length_append]
        exact hline.trans (Int.ofNat_le.2 (by
          show _ ≤ _ + _ + k.retried.length + 0
          omega))

theorem wakePut (h : Lined capacity [] k given queued) {entry : Entry ι} {rest : List (Entry ι)}
    (hqueue : k.queue = entry :: rest) :
    Lined capacity [] ({ k with queue := rest } : Worker ι ρ).wakePut given queued := by
  unfold Worker.wakePut
  split
  · rename_i hblocked
    exact { h with line := fun hne => absurd hblocked hne }
  · rename_i next others hblocked
    change k.blocked = next :: others at hblocked
    obtain ⟨hpos, hline⟩ := h.line (hblocked ▸ List.cons_ne_nil _ _)
    rw [hqueue, List.length_cons, List.length_nil] at hline
    have hretried : ({ k with
        queue := rest, blocked := others, ready := k.ready ++ [.retry next] } :
          Worker ι ρ).retried = k.retried ++ [next] :=
      WorkerTurn.entries_append k.ready (.retry next)
    refine ⟨h.capacity, ?_, fun _ => ⟨hpos, ?_⟩⟩
    · rw [hretried, h.everyone, hblocked, ← Multiset.cons_coe, ← Multiset.coe_add,
        ← Multiset.singleton_add, Multiset.coe_singleton]
      ac_rfl
    · rw [hretried, List.length_append, List.length_singleton, List.length_nil]
      dsimp only
      omega

theorem done (h : Lined capacity hand k given queued) (outcome : Outcome α) :
    Lined capacity hand (k.count outcome).entryDone given queued := by
  cases outcome with
  | ok _ => exact { h with }
  | error _ => exact { h with }

theorem drain (h : Lined capacity [] k given queued) (loop : Nat) {entries : List (Entry ι)}
    (hqueue : k.queue = entries) (world : σ) :
    Lined capacity [] (Worker.drain w loop entries k world).1 given queued := by
  induction entries generalizing k world with
  | nil =>
      have hline := h.line
      rw [hqueue] at hline
      exact { h with line := hline }
  | cons entry rest ih =>
      have htaken := h.wakePut hqueue
      have hrest : ({ k with queue := rest } : Worker ι ρ).wakePut.queue = rest := queue_wakePut _
      cases entry with
      | stop => exact { htaken with }
      | job item =>
          rw [Worker.drain]
          generalize ({ k with queue := rest } : Worker ι ρ).wakePut = taken at htaken hrest ⊢
          rcases w.begin item world with ⟨progress, world'⟩
          cases progress with
          | finished outcome =>
              exact ih (htaken.done outcome) ((queue_done _ _).trans hrest) world'
          | yielded r =>
              apply htaken.calling
              rw [WorkerTurn.entries_append]
              exact .of_eq (List.append_nil _)
          | sleeping seconds r => exact { htaken with }

theorem wakeDue (h : Lined capacity [] k given queued) (due : Rat) :
    Lined capacity [] (k.wakeDue due) given queued := by
  have hnone (timers : List (Timer ρ)) :
      (k.ready ++ WorkerTurn.resumed timers).filterMap WorkerTurn.entry? = k.retried := by
    simp [retried, WorkerTurn.resumed, WorkerTurn.entry?]
  have hcalled (timers : List (Timer ρ)) : Lined capacity []
      { k with ready := k.ready ++ WorkerTurn.resumed timers } given queued :=
    h.calling (.of_eq (hnone timers))
  exact { hcalled _ with }

theorem take (h : Lined capacity [] k given queued) {t : WorkerTurn ι ρ}
    {later : List (WorkerTurn ι ρ)} (hready : k.ready.Perm (t :: later)) (world : σ) :
    Lined capacity [] (({ k with ready := later } : Worker ι ρ).take w world t).1 given
      (queued ++ k.admittedBy t) := by
  have hretried := hready.filterMap WorkerTurn.entry?
  cases t with
  | retry entry =>
      have hpick : Lined capacity [entry] { k with ready := later } given queued := by
        have hcalled : k.retried.Perm (entry :: ({ k with ready := later } : Worker ι ρ).retried) :=
          hretried
        refine ⟨h.capacity, ?_, fun hne => ?_⟩
        · rw [h.everyone, Multiset.coe_eq_coe.2 hcalled, ← Multiset.cons_coe,
            ← Multiset.singleton_add, Multiset.coe_nil, Multiset.coe_singleton]
          dsimp only
          ac_rfl
        · obtain ⟨hpos, hline⟩ := h.line hne
          rw [hcalled.length_eq, List.length_cons, List.length_nil] at hline
          rw [List.length_singleton]
          exact ⟨hpos, hline⟩
      exact hpick.put
  | serve loop =>
      rw [admittedBy, List.append_nil]
      have hpick : Lined capacity [] { k with ready := later } given queued :=
        h.calling hretried.symm
      exact hpick.drain loop rfl world
  | resume loop rest =>
      rw [admittedBy, List.append_nil]
      have hpick : Lined capacity [] { k with ready := later } given queued :=
        h.calling hretried.symm
      exact (hpick.done _).drain loop (queue_done _ _) _

theorem move (h : Lined capacity [] k given queued) (world : σ) (m : Move ι) :
    Lined capacity [] (k.move w world m).1 (given ++ m.entry?.toList)
      (queued ++ k.admitted m) := by
  cases m with
  | put entry => exact (h.come entry).put
  | join =>
      rw [admitted, Move.entry?, Option.toList_none, List.append_nil, List.append_nil]
      exact { h with }
  | launch =>
      rw [admitted, Move.entry?, Option.toList_none, List.append_nil, List.append_nil, Worker.move]
      split
      · have hlaunch : Lined capacity [] { k with running := true, loops := k.loops + 1 } given
            queued := { h with }
        exact hlaunch.drain k.loops rfl world
      · exact h
  | turn position =>
      rw [admitted, Move.entry?, Option.toList_none, List.append_nil, Worker.move]
      cases ht : k.ready[position]? with
      | none =>
          rw [Option.elim_none, List.append_nil]
          exact h
      | some t =>
          rw [Option.elim_some]
          obtain ⟨hposition, ht⟩ := List.getElem?_eq_some_iff.1 ht
          exact h.take (ht ▸ (List.getElem_cons_eraseIdx_perm hposition).symm) world
  | wake due =>
      rw [admitted, Move.entry?, Option.toList_none, List.append_nil, List.append_nil]
      exact h.wakeDue due
  | clock instant =>
      rw [admitted, Move.entry?, Option.toList_none, List.append_nil, List.append_nil]
      exact { h with }

end Lined

end Worker

end Retrieval
