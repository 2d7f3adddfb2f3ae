import Retrieval.Proofs.Schedule.Starting

/-!
# What a fan-out gathers

At every moment a fan-out with permits runs no more work than it has permits, and nobody waits for
one while it could be had. What has begun are the first items, in order; in the end all have begun,
and there is one outcome for each, in the order of the items, that this item gave.
-/

namespace Retrieval

namespace Work

variable {σ α : Type}

/-- Tasks that take some seconds, if any, and come out in a way of their own. -/
def timed : Work σ (Rat × Outcome α) (Outcome α) α where
  begin task world := (.sleep task.1 task.2, world)
  resume outcome world := (outcome, world)
  elapse _ world := world

theorem mayGive_timed {task : Rat × Outcome α} {outcome : Outcome α}
    (h : (timed : Work σ _ _ α).MayGive task outcome) : task.2 = outcome := by
  rcases h with ⟨world, hbegin⟩ | ⟨rest, world, ⟨world', hleft | ⟨seconds, hleft⟩⟩, rfl⟩
  · simp only [timed, Progress.sleep] at hbegin
    split at hbegin <;> cases hbegin
  · simp only [timed, Progress.sleep] at hleft ⊢
    split at hleft <;> cases hleft
    rfl
  · simp only [timed, Progress.sleep] at hleft ⊢
    split at hleft <;> cases hleft
    rfl

end Work

namespace Turn

variable {ρ : Type}

def resumed? : Turn ρ → Option Nat
  | .resume number _ => some number
  | _ => none

end Turn

namespace Fanout

variable {σ ι ρ α : Type}

/-- What an item gave is told of its number, and what it left is under way there. -/
structure Truthful (w : Work σ ι ρ α) (items : List ι) (f : Fanout σ ρ α) : Prop where
  told : ∀ x ∈ f.outcomes, ∃ item, items[x.1]? = some item ∧ w.MayGive item x.2
  left : ∀ x ∈ f.begun, ∃ item, items[x.1]? = some item ∧ w.Leaves item x.2

namespace Truthful

variable {w : Work σ ι ρ α} {items : List ι} {f : Fanout σ ρ α} {number : Nat} {item : ι}

theorem start (w : Work σ ι ρ α) (items : List ι) (permits : Nat) (clock : Rat) (world : σ) :
    Truthful w items (start items.length permits clock world) where
  told _ h := nomatch h
  left x h := by simp [begun, Fanout.start, Function.comp_def, Turn.begun] at h

theorem complete {outcome : Outcome α} (h : Truthful w items f)
    (hitem : items[number]? = some item) (hgives : w.MayGive item outcome) :
    Truthful w items (f.complete number outcome) where
  told x hx := by
    rw [outcomes_complete] at hx
    rcases List.mem_append.1 hx with hx | hx
    · exact h.told x hx
    · rw [List.mem_singleton.1 hx]
      exact ⟨item, hitem, hgives⟩
  left x hx := by
    rw [begun_complete] at hx
    exact h.left x hx

theorem follow {progress : Progress ρ α} (h : Truthful w items f)
    (hitem : items[number]? = some item) {world : σ}
    (hprogress : (w.begin item world).1 = progress) :
    Truthful w items (f.follow number progress) := by
  cases progress with
  | finished outcome => exact h.complete hitem (.inl ⟨world, hprogress⟩)
  | yielded rest =>
      refine ⟨h.told, fun x hx => ?_⟩
      rw [Fanout.follow, begun_enqueue, Turn.begun] at hx
      rcases Multiset.mem_add.1 hx with hx | hx
      · exact h.left x hx
      · rw [Multiset.mem_singleton.1 hx]
        exact ⟨item, hitem, world, .inl hprogress⟩
  | sleeping seconds rest =>
      refine ⟨h.told, fun x hx => ?_⟩
      have hbegun : (f.follow number (.sleeping seconds rest)).begun =
          f.begun + {(number, rest)} := by
        simp only [Fanout.follow, begun, List.map_append, List.map_singleton,
          ← Multiset.coe_add, Multiset.coe_singleton]
        ac_rfl
      rw [hbegun] at hx
      rcases Multiset.mem_add.1 hx with hx | hx
      · exact h.left x hx
      · rw [Multiset.mem_singleton.1 hx]
        exact ⟨item, hitem, world, .inr ⟨seconds, hprogress⟩⟩

theorem launch (h : Truthful w items f) (number : Nat) :
    Truthful w items (f.launch w items number) := by
  unfold Fanout.launch
  cases hitem : items[number]? with
  | none => exact h
  | some item =>
      have hworld : Truthful w items { f with world := (w.begin item f.world).2 } :=
        ⟨h.told, h.left⟩
      exact hworld.follow hitem rfl

theorem take {t : Turn ρ} {later : List (Turn ρ)} (h : Truthful w items f)
    (hready : f.ready = t :: later) (patient : Bool) :
    Truthful w items ({ f with ready := later }.take w items patient t) := by
  have hbegun := begun_of_ready hready
  have hrest : Truthful w items { f with ready := later } :=
    ⟨h.told, fun x hx => h.left x (hbegun ▸ Multiset.mem_add.2 (.inr hx))⟩
  cases t with
  | begin number =>
      rw [Fanout.take]
      split
      · exact ⟨hrest.told, hrest.left⟩
      · have hheld : Truthful w items { f with ready := later, permits := f.permits - 1 } :=
          ⟨hrest.told, hrest.left⟩
        exact hheld.launch number
  | permit number => exact hrest.launch number
  | resume number rest =>
      have hthis : (number, rest) ∈ f.begun := by
        rw [hbegun]
        exact Multiset.mem_add.2 (.inl (Multiset.mem_singleton_self _))
      obtain ⟨item, hitem, hleaves⟩ := h.left _ hthis
      have hworld : Truthful w items
          { f with ready := later, world := (w.resume rest f.world).2 } :=
        ⟨hrest.told, hrest.left⟩
      exact hworld.complete hitem (.inr ⟨rest, f.world, hleaves, rfl⟩)
  | notice number failed =>
      rw [Fanout.take]
      split
      · have habandon : (Turn.abandon : Turn ρ).begun = 0 := rfl
        refine ⟨hrest.told, fun x hx => hrest.left x ?_⟩
        rwa [begun_enqueue, habandon, add_zero] at hx
      · exact hrest
  | abandon => exact ⟨hrest.told, hrest.left⟩

theorem step {patient : Bool} {f' : Fanout σ ρ α} (h : Truthful w items f)
    (hs : f.step w items patient = some f') : Truthful w items f' := by
  obtain ⟨t, later, hready, rfl⟩ | ⟨hready, due, -, rfl⟩ := step_cases hs
  · exact h.take hready patient
  · refine ⟨h.told, fun x hx => h.left x ?_⟩
    rwa [Orderly.begun_wait w hready] at hx

theorem runFor (h : Truthful w items f) (patient : Bool) (steps : Nat) :
    Truthful w items (f.runFor w items patient steps) :=
  runFor_preserves (fun _ _ htruthful hs => htruthful.step hs) h steps

end Truthful

theorem coe_running (f : Fanout σ ρ α) : (f.running : Multiset Nat) = f.begun.map Prod.fst := by
  have hresumed (ready : List (Turn ρ)) :
      ((ready.filterMap Turn.resumed? : List Nat) : Multiset Nat) =
        ((ready.map Turn.begun).sum).map Prod.fst := by
    induction ready with
    | nil => rfl
    | cons t later ih =>
        rw [List.map_cons, List.sum_cons, Multiset.map_add, ← ih]
        cases t with
        | resume number rest => rfl
        | _ => exact (zero_add _).symm
  have hrunning : f.running = f.timers.map (·.number) ++ f.ready.filterMap Turn.resumed? := by
    unfold running
    congr 1
  rw [hrunning, ← Multiset.coe_add, hresumed, begun, Multiset.map_add, Multiset.map_coe,
    List.map_map]
  rfl

theorem length_running (f : Fanout σ ρ α) : f.running.length = f.begun.card := by
  rw [← Multiset.coe_card, coe_running, Multiset.card_map]

theorem Lineup.upcoming_eq {f : Fanout σ ρ α} {count m : Nat} {fresh : List Nat}
    {rest : List (Turn ρ)} (h : Lineup count m fresh rest f) :
    f.upcoming = ↑(List.range' m (count - m)) := by
  have hfresh : ((fresh.map (.begin : Nat → Turn ρ)).map Turn.upcoming).sum = ↑fresh := by
    rw [List.map_map]
    exact Multiset.sum_map_singleton (fresh : Multiset Nat)
  have hpermits (turns : List (Turn ρ)) (hseen : ∀ t ∈ turns, t.isBegin = false) :
      (turns.map Turn.upcoming).sum = ↑(turns.filterMap Turn.permit?) := by
    induction turns with
    | nil => rfl
    | cons t later ih =>
        obtain ⟨ht, hlater⟩ := List.forall_mem_cons.1 hseen
        rw [List.map_cons, List.sum_cons, ih hlater]
        cases t with
        | begin number => cases ht
        | permit number => rfl
        | _ => exact zero_add _
  rw [upcoming, h.ready, List.map_append, List.sum_append, hfresh, hpermits rest h.seen, ← h.line,
    ← Multiset.coe_add, ← Multiset.coe_add]
  ac_rfl

/-- What runs or is over are the first pieces of work, as many as there are. -/
theorem Advanced.numbers {items : List ι} {permits m : Nat} {f : Fanout (σ × Notes ι α) ρ α}
    (h : Advanced items m f) (horder : Orderly items.length permits 0 0 f) :
    (f.running ++ f.outcomes.map Prod.fst).Perm (List.range m) := by
  obtain ⟨fresh, rest, hline⟩ := h.line
  have hall := @List.range'_append_1 0 m (items.length - m)
  rw [Nat.zero_add, Nat.add_sub_cancel' h.bound, ← List.range_eq_range',
    ← List.range_eq_range'] at hall
  have hrange : Multiset.range items.length =
      ↑(List.range' m (items.length - m)) + ↑(List.range m) := by
    rw [add_comm, Multiset.coe_add, hall]
    rfl
  have hnumbers := horder.numbers
  rw [zero_add, hline.upcoming_eq, ← coe_running, add_assoc, hrange] at hnumbers
  exact Multiset.coe_eq_coe.1 (add_left_cancel hnumbers)

/-- What is true of a bounded fan-out at every moment, and of its notes. -/
structure Bounded (w : Work σ ι ρ α) (items : List ι) (permits : Nat)
    (f : Fanout (σ × Notes ι α) ρ α) : Prop where
  running : f.running.length ≤ permits
  /-- An item begins only where less runs than there are permits. -/
  room : ∀ f', f.step w.noted items true = some f' →
    f'.world.2.begun = f.world.2.begun ∨ f.running.length < permits
  /-- The items begun are the first ones, each once and in order; they run or are over. -/
  begun : f.world.2.begun = items.take (f.running.length + f.outcomes.length)
  numbers : (f.running ++ f.outcomes.map Prod.fst).Perm
    (List.range (f.running.length + f.outcomes.length))
  /-- The outcomes are those that the items came to, in the order of completion. -/
  ended : f.outcomes.map Prod.snd = f.world.2.ended
  /-- Where time passes while an item waits, all permits are in use. -/
  busy : f.ready = [] → f.world.2.begun.length < items.length → f.running.length = permits

theorem Bounded.of_advanced {w : Work σ ι ρ α} {items : List ι} {permits m : Nat}
    {f : Fanout (σ × Notes ι α) ρ α} (h : Advanced items m f)
    (horder : Orderly items.length permits 0 0 f) : Bounded w items permits f := by
  have hnumbers := h.numbers horder
  have hm : f.running.length + f.outcomes.length = m := by
    have hlength := hnumbers.length_eq
    rwa [List.length_append, List.length_map, List.length_range] at hlength
  have hpermits := horder.permits
  rw [← length_running, add_zero] at hpermits
  refine ⟨by omega, fun f' hs => ?_, ?_, ?_, h.ended.symm, fun hready hleft => ?_⟩
  · rcases h.step horder hs with h' | ⟨hfree, -⟩
    · exact .inl (h'.begun.trans h.begun.symm)
    · exact .inr (by omega)
  · rw [hm]
    exact h.begun
  · rw [hm]
    exact hnumbers
  -- Nobody is left to be seen to, so that who has not begun waits for a permit.
  · obtain ⟨fresh, rest, hline⟩ := h.line
    rw [h.begun, List.length_take_of_le h.bound] at hleft
    have hwaiting : f.waiting ≠ [] := fun hnobody => by
      have hempty : (f.waiting : Multiset Nat) + ((f.ready.map Turn.upcoming).sum) = 0 := by
        rw [hnobody, hready]
        rfl
      have hupcoming := congrArg Multiset.card (hline.upcoming_eq.symm.trans hempty)
      rw [Multiset.coe_card, List.length_range', Multiset.card_zero] at hupcoming
      omega
    have hfree : f.free = f.permits := by rw [free, hready, List.map_nil, List.sum_nil, add_zero]
    have hnone := horder.line hwaiting
    omega

theorem Bounded.begun_eq {w : Work σ ι ρ α} {items : List ι} {permits : Nat}
    {f : Fanout (σ × Notes ι α) ρ α} (h : Bounded w items permits f)
    (horder : Orderly items.length permits 0 0 f) (hover : f.IsOver) :
    f.world.2.begun = items := by
  have hlength := (horder.outcomes_perm hover).length_eq
  rw [List.length_map, List.length_range] at hlength
  have hbegun := h.begun
  rwa [length_running, hover.2, Multiset.card_zero, Nat.zero_add, hlength, List.take_length]
    at hbegun

theorem forall₂_filterMap_range {R : ι → α → Prop} {items : List ι} {find : Nat → Option α}
    (h : ∀ number item, items[number]? = some item → ∃ a, find number = some a ∧ R item a) :
    List.Forall₂ R items ((List.range items.length).filterMap find) := by
  induction items generalizing find with
  | nil => exact .nil
  | cons item rest ih =>
      obtain ⟨a, hfind, ha⟩ := h 0 item rfl
      rw [List.length_cons, List.range_succ_eq_map, List.filterMap_cons_some hfind,
        List.filterMap_map]
      exact .cons ha (ih fun number other hother => h (number + 1) other hother)

theorem Truthful.inOrder {w : Work σ ι ρ α} {items : List ι} {permits : Nat} {f : Fanout σ ρ α}
    (h : Truthful w items f) (horder : Orderly items.length permits 0 0 f) (hover : f.IsOver) :
    List.Forall₂ w.MayGive items (f.inOrder items.length) := by
  refine forall₂_filterMap_range fun number item hitem => ?_
  have hnumber : number ∈ f.outcomes.map Prod.fst := by
    rw [(horder.outcomes_perm hover).mem_iff, List.mem_range]
    exact (List.getElem?_eq_some_iff.1 hitem).1
  cases hfind : f.outcomeOf number with
  | none =>
      rw [outcomeOf, List.lookup_eq_none_iff] at hfind
      obtain ⟨x, hx, rfl⟩ := List.mem_map.1 hnumber
      simpa using hfind x hx
  | some outcome =>
      obtain ⟨before, after, houtcomes, -⟩ := List.lookup_eq_some_iff.1 hfind
      obtain ⟨item', hitem', hgives⟩ := h.told (number, outcome) (houtcomes ▸ by simp)
      rw [hitem] at hitem'
      cases hitem'
      exact ⟨outcome, rfl, hgives⟩

/-- Tasks are gathered in the order in which they were given, whichever is over first. -/
theorem inOrder_run_timed (tasks : List (Rat × Outcome α)) {permits : Nat} (hpermits : 0 < permits)
    (clock : Rat) (world : σ) :
    (run .timed tasks permits true clock world).inOrder tasks.length = tasks.map Prod.snd := by
  have horder : Orderly tasks.length permits 0 0 (start tasks.length permits clock world :
      Fanout σ (Outcome α) α) := .start _ _ _ _
  have hall := ((Truthful.start .timed tasks permits clock world).runFor true _).inOrder
    (horder.runFor .timed true _) (isOver_run .timed tasks hpermits clock world)
  have hequal := List.forall₂_map_left_iff.2 (hall.imp fun _ _ => Work.mayGive_timed)
  rw [List.forall₂_eq_eq_eq] at hequal
  exact hequal.symm

/-- A fan-out with permits that is patient keeps within its permits and to the order of its items
from the first moment to the last, and what it gathers is the outcome of each item in its place. -/
theorem run_bounded (w : Work σ ι ρ α) (items : List ι) {permits : Nat} (hpermits : 0 < permits)
    (clock : Rat) (world : σ) :
    (∀ steps, ∃ f, runFor w.noted items true steps
        (start items.length permits clock (world, Notes.none)) = f ∧
      f.unnoted = runFor w items true steps (start items.length permits clock world) ∧
      Bounded w items permits f) ∧
    (run w items permits true clock world).step w items true = none ∧
    (run w.noted items permits true clock (world, Notes.none)).world.2.begun = items ∧
    List.Forall₂ w.MayGive items ((run w items permits true clock world).inOrder items.length) := by
  have hstart : Orderly items.length permits 0 0 (start items.length permits clock
      (world, Notes.none) : Fanout (σ × Notes ι α) ρ α) := .start _ _ _ _
  have hplain : Orderly items.length permits 0 0 (start items.length permits clock world :
      Fanout σ ρ α) := .start _ _ _ _
  have hbounded (steps : Nat) : Bounded w items permits (runFor w.noted items true steps
      (start items.length permits clock (world, Notes.none))) := by
    obtain ⟨m, h⟩ := (Advanced.start items permits clock world).runFor hstart w true steps
    exact .of_advanced h (hstart.runFor w.noted true steps)
  refine ⟨fun steps => ⟨_, rfl, unnoted_runFor w _ items true steps, hbounded steps⟩, ?_, ?_, ?_⟩
  · exact step_runFor_eq_none w items true (by rw [weight_start]; exact Nat.le_add_right _ _)
  · exact (hbounded _).begun_eq (hstart.runFor w.noted true _)
      (isOver_run w.noted items hpermits clock (world, Notes.none))
  · exact ((Truthful.start w items permits clock world).runFor true _).inOrder
      (hplain.runFor w true _) (isOver_run w items hpermits clock world)

/-- Of three tasks the two quicker ones, one of them failing, are over before the first one. -/
theorem run_bounded_timed :
    let tasks : List (Rat × Outcome Nat) :=
      [(3, .ok 1), (0, .error (.badValue "none")), (1, .ok 2)]
    let f : Fanout Unit (Outcome Nat) Nat := run .timed tasks 2 true 0 ()
    0 < 2 ∧ f.outcomes.map Prod.fst = [1, 2, 0] ∧
      List.Forall₂ (Work.timed (σ := Unit)).MayGive tasks (f.inOrder 3) :=
  ⟨by decide, by decide +kernel, (run_bounded .timed _ (by decide) 0 ()).2.2.2⟩

end Fanout

end Retrieval
