import Mathlib.Algebra.BigOperators.Group.Multiset.Basic
import Mathlib.Algebra.Order.Ring.Int
import Mathlib.Data.Multiset.Range
import Retrieval.Schedule.Fanout

/-!
# Where the work of a fan-out stands

Every piece of work is in line, under way or over, and is so once. Each permit is held by a piece of
work that is under way, or nobody uses it yet; somebody is in line only while no permit is left.
Every turn and every wait brings the end nearer, so the steps that a run is given suffice.
-/

namespace Retrieval

namespace Timer

variable {ρ : Type}

theorem exists_due_le {timers : List (Timer ρ)} {due : Rat} (h : nextDue timers = some due) :
    ∃ t ∈ timers, t.due ≤ due := by
  induction timers generalizing due with
  | nil => cases h
  | cons t later ih =>
      rw [nextDue] at h
      cases hl : nextDue later with
      | none =>
          simp only [hl, Option.some.injEq] at h
          exact ⟨t, List.mem_cons_self, h ▸ Rat.le_refl⟩
      | some d =>
          simp only [hl, Option.some.injEq] at h
          by_cases hd : d < t.due
          · rw [if_pos hd] at h
            obtain ⟨t', ht', hle⟩ := ih hl
            exact ⟨t', List.mem_cons_of_mem _ ht', h ▸ hle⟩
          · rw [if_neg hd] at h
            exact ⟨t, List.mem_cons_self, h ▸ Rat.le_refl⟩

theorem eq_nil_of_nextDue {timers : List (Timer ρ)} (h : nextDue timers = none) : timers = [] := by
  cases timers with
  | nil => rfl
  | cons t later => cases h

end Timer

namespace Turn

variable {ρ : Type}

def upcoming : Turn ρ → Multiset Nat
  | .begin number | .permit number => {number}
  | _ => 0

def begun : Turn ρ → Multiset (Nat × ρ)
  | .resume number rest => {(number, rest)}
  | _ => 0

def free : Turn ρ → Nat
  | .permit _ => 1
  | _ => 0

/-- How many turns and waits can come of a turn, itself included. -/
def weight : Turn ρ → Nat
  | .abandon => 1
  | .notice _ _ => 2
  | .resume _ _ => 3
  | .permit _ => 5
  | .begin _ => 6

end Turn

namespace Fanout

variable {σ ι ρ α : Type} (f : Fanout σ ρ α)

def upcoming : Multiset Nat := ↑f.waiting + (f.ready.map Turn.upcoming).sum

def begun : Multiset (Nat × ρ) :=
  ↑(f.timers.map fun t => (t.number, t.rest)) + (f.ready.map Turn.begun).sum

def free : Nat := f.permits + (f.ready.map Turn.free).sum

def weight : Nat := 5 * f.waiting.length + 4 * f.timers.length + (f.ready.map Turn.weight).sum

section Ready

variable {f} {t : Turn ρ} {later : List (Turn ρ)} (h : f.ready = t :: later)

include h

theorem upcoming_of_ready : f.upcoming = t.upcoming + { f with ready := later }.upcoming := by
  simp only [upcoming, h, List.map_cons, List.sum_cons]
  exact add_left_comm _ _ _

theorem begun_of_ready : f.begun = t.begun + { f with ready := later }.begun := by
  simp only [begun, h, List.map_cons, List.sum_cons]
  exact add_left_comm _ _ _

theorem free_of_ready : f.free = t.free + { f with ready := later }.free := by
  simp only [free, h, List.map_cons, List.sum_cons]
  exact add_left_comm _ _ _

theorem weight_of_ready : f.weight = t.weight + { f with ready := later }.weight := by
  simp only [weight, h, List.map_cons, List.sum_cons]
  exact add_left_comm _ _ _

end Ready

@[simp] theorem upcoming_enqueue (t : Turn ρ) :
    (f.enqueue t).upcoming = f.upcoming + t.upcoming := by
  simp [upcoming, enqueue, add_assoc]

@[simp] theorem begun_enqueue (t : Turn ρ) : (f.enqueue t).begun = f.begun + t.begun := by
  simp [begun, enqueue, add_assoc]

@[simp] theorem free_enqueue (t : Turn ρ) : (f.enqueue t).free = f.free + t.free := by
  simp [free, enqueue, add_assoc]

@[simp] theorem weight_enqueue (t : Turn ρ) : (f.enqueue t).weight = f.weight + t.weight := by
  simp [weight, enqueue, add_assoc]

theorem upcoming_release : f.release.upcoming = f.upcoming := by
  unfold release
  split
  · rename_i h
    simp [upcoming, h]
  · rename_i next rest h
    have hw : (f.waiting : Multiset Nat) = {next} + ↑rest := by
      rw [h, Multiset.singleton_add, Multiset.cons_coe]
    rw [upcoming_enqueue, upcoming, upcoming, hw, Turn.upcoming]
    ac_rfl

theorem begun_release : f.release.begun = f.begun := by
  unfold release
  split
  · rfl
  · rw [begun_enqueue]
    exact add_zero _

theorem free_release : f.release.free = f.free + 1 := by
  unfold release
  split
  · simp only [free]
    omega
  · rw [free_enqueue]
    rfl

theorem weight_release : f.release.weight = f.weight := by
  unfold release
  split
  · rfl
  · rename_i h
    rw [weight_enqueue, weight, weight, h, Turn.weight, List.length_cons]
    dsimp only
    omega

theorem world_release : f.release.world = f.world := by
  unfold release
  split <;> rfl

theorem outcomes_release : f.release.outcomes = f.outcomes := by
  unfold release
  split <;> rfl

theorem begun_complete (number : Nat) (outcome : Outcome α) :
    (f.complete number outcome).begun = f.begun := by
  have hnotice : (Turn.notice number (isFailure outcome) : Turn ρ).begun = 0 := rfl
  rw [complete, begun_enqueue, begun_release, hnotice, add_zero]
  rfl

theorem world_complete (number : Nat) (outcome : Outcome α) :
    (f.complete number outcome).world = f.world :=
  world_release { f with outcomes := f.outcomes ++ [(number, outcome)] }

theorem outcomes_complete (number : Nat) (outcome : Outcome α) :
    (f.complete number outcome).outcomes = f.outcomes ++ [(number, outcome)] :=
  outcomes_release { f with outcomes := f.outcomes ++ [(number, outcome)] }

theorem weight_complete (number : Nat) (outcome : Outcome α) :
    (f.complete number outcome).weight = f.weight + 2 := by
  rw [complete, weight_enqueue, weight_release]
  rfl

theorem weight_follow_le (number : Nat) (progress : Progress ρ α) :
    (f.follow number progress).weight ≤ f.weight + 4 := by
  cases progress with
  | finished outcome =>
      rw [follow, weight_complete]
      omega
  | yielded rest =>
      rw [follow, weight_enqueue, Turn.weight]
      omega
  | sleeping seconds rest =>
      simp only [follow, weight, List.length_append, List.length_singleton]
      omega

theorem weight_launch_le (w : Work σ ι ρ α) (items : List ι) (number : Nat) :
    (f.launch w items number).weight ≤ f.weight + 4 := by
  unfold launch
  split
  · exact Nat.le_add_right _ _
  · exact weight_follow_le _ _ _

theorem weight_take_lt (w : Work σ ι ρ α) (items : List ι) (patient : Bool) (t : Turn ρ) :
    (f.take w items patient t).weight < f.weight + t.weight := by
  cases t with
  | begin number =>
      rw [take, Turn.weight]
      split
      · simp only [weight, List.length_append, List.length_singleton]
        omega
      · have := weight_launch_le { f with permits := f.permits - 1 } w items number
        exact this.trans_lt (Nat.add_lt_add_left (by decide) _)
  | permit number =>
      have := weight_launch_le f w items number
      exact this.trans_lt (Nat.add_lt_add_left (by decide : 4 < 5) _)
  | resume number rest =>
      rw [take, weight_complete, Turn.weight]
      exact Nat.add_lt_add_left (by decide : 2 < 3) _
  | notice number failed =>
      rw [take, Turn.weight]
      split
      · rw [weight_enqueue, Turn.weight]
        omega
      · omega
  | abandon => exact Nat.lt_add_one _

theorem sum_weight_resumed (timers : List (Timer ρ)) :
    ((timers.map fun t => Turn.resume t.number t.rest).map Turn.weight).sum =
      3 * timers.length := by
  induction timers with
  | nil => rfl
  | cons t later ih =>
      rw [List.map_cons, List.map_cons, List.sum_cons, ih, Turn.weight, List.length_cons]
      omega

variable {f}

/-- A step takes the first of the ready turns, or waits where there is none. -/
theorem step_cases {w : Work σ ι ρ α} {items : List ι} {patient : Bool} {f' : Fanout σ ρ α}
    (h : f.step w items patient = some f') :
    (∃ t later, f.ready = t :: later ∧
        f' = ({ f with ready := later } : Fanout σ ρ α).take w items patient t) ∨
      f.ready = [] ∧ ∃ due, Timer.nextDue f.timers = some due ∧ f' = f.wait w due := by
  unfold step at h
  split at h
  · cases h
  · split at h
    · rename_i t later hready
      exact .inl ⟨t, later, hready, (Option.some.inj h).symm⟩
    · rename_i hready
      obtain ⟨due, hdue, hwait⟩ := Option.map_eq_some_iff.1 h
      exact .inr ⟨hready, due, hdue, hwait.symm⟩

/-- What every step preserves a run preserves. -/
theorem runFor_preserves {w : Work σ ι ρ α} {items : List ι} {patient : Bool}
    {P : Fanout σ ρ α → Prop} (hstep : ∀ f f', P f → f.step w items patient = some f' → P f')
    (h : P f) (steps : Nat) : P (f.runFor w items patient steps) := by
  induction steps generalizing f with
  | zero => exact h
  | succ steps ih =>
      rw [runFor]
      cases hs : f.step w items patient with
      | none => exact h
      | some f' => exact ih (hstep f f' h hs)

theorem weight_wait_lt (w : Work σ ι ρ α) {due : Rat} (hready : f.ready = [])
    (hdue : Timer.nextDue f.timers = some due) : (f.wait w due).weight < f.weight := by
  obtain ⟨t, ht, hle⟩ := Timer.exists_due_le hdue
  have hwoken : 0 < (f.timers.filter fun t => decide (t.due ≤ due)).length :=
    List.length_pos_of_mem (List.mem_filter.2 ⟨ht, decide_eq_true hle⟩)
  have hall := (List.filter_append_perm (fun t => decide (t.due ≤ due)) f.timers).length_eq
  rw [List.length_append] at hall
  simp only [wait, List.partition_eq_filter_filter, weight, hready, sum_weight_resumed,
    List.map_nil, List.sum_nil]
  change 5 * _ + 4 * (f.timers.filter fun t => !decide (t.due ≤ due)).length + _ < _
  omega

theorem weight_step_lt {w : Work σ ι ρ α} {items : List ι} {patient : Bool}
    {f' : Fanout σ ρ α} (h : f.step w items patient = some f') : f'.weight < f.weight := by
  obtain ⟨t, later, hready, rfl⟩ | ⟨hready, due, hdue, rfl⟩ := step_cases h
  · rw [weight_of_ready hready, add_comm]
    exact weight_take_lt _ w items patient _
  · exact weight_wait_lt w hready hdue

theorem step_runFor_eq_none (w : Work σ ι ρ α) (items : List ι) (patient : Bool) {steps : Nat}
    (h : f.weight ≤ steps) : (f.runFor w items patient steps).step w items patient = none := by
  induction steps generalizing f with
  | zero =>
      rw [runFor]
      cases hs : f.step w items patient with
      | none => rfl
      | some f' =>
          have := weight_step_lt hs
          omega
  | succ steps ih =>
      rw [runFor]
      cases hs : f.step w items patient with
      | none => exact hs
      | some f' =>
          have := weight_step_lt hs
          exact ih (by omega)

theorem weight_start (count permits : Nat) (clock : Rat) (world : σ) :
    (start count permits clock world : Fanout σ ρ α).weight = 6 * count := by
  simp [weight, start, Function.comp_def, Turn.weight, Nat.mul_comm]

/-- Every piece of work stands in one place, some of them in hand, and every permit is somewhere,
some of them in hand as well. -/
structure Orderly (count permits : Nat) (hand : Multiset Nat) (spare : Nat)
    (f : Fanout σ ρ α) : Prop where
  numbers : hand + f.upcoming + f.begun.map Prod.fst + ↑(f.outcomes.map Prod.fst) =
    Multiset.range count
  permits : f.begun.card + f.free + spare = permits
  line : f.waiting ≠ [] → f.permits = 0

namespace Orderly

variable {count permits number spare : Nat} {hand : Multiset Nat}

theorem start (count permits : Nat) (clock : Rat) (world : σ) :
    Orderly count permits 0 0 (start count permits clock world : Fanout σ ρ α) where
  numbers := by
    have hsum : ((List.range count).map fun number => (.begin number : Turn ρ).upcoming).sum =
        Multiset.range count := Multiset.sum_map_singleton (Multiset.range count)
    simp [Fanout.start, upcoming, begun, hsum, Function.comp_def, Turn.begun]
  permits := by simp [Fanout.start, begun, free, Function.comp_def, Turn.begun, Turn.free]
  line h := absurd rfl h

theorem lt_of_mem_hand (h : Orderly count permits hand spare f) (hn : number ∈ hand) :
    number < count := by
  rw [← Multiset.mem_range, ← h.numbers]
  simp [hn]

theorem enqueue {t : Turn ρ} (h : Orderly count permits (hand + t.upcoming) spare f)
    (hbegun : t.begun = 0) (hfree : t.free = 0) :
    Orderly count permits hand spare (f.enqueue t) where
  numbers := by
    rw [upcoming_enqueue, begun_enqueue, hbegun, add_zero, ← h.numbers]
    simp only [Fanout.enqueue]
    ac_rfl
  permits := by rw [begun_enqueue, free_enqueue, hbegun, hfree, add_zero, add_zero, h.permits]
  line := h.line

theorem release (h : Orderly count permits hand 1 f) : Orderly count permits hand 0 f.release where
  numbers := by rw [upcoming_release, begun_release, outcomes_release, h.numbers]
  permits := by
    have hpermits := h.permits
    rw [begun_release, free_release]
    omega
  line := by
    unfold Fanout.release
    split
    · rename_i hw
      exact fun hne => absurd hw hne
    · rename_i hw
      exact fun _ => h.line (by rw [hw]; exact List.cons_ne_nil _ _)

theorem complete (h : Orderly count permits {number} 1 f) (outcome : Outcome α) :
    Orderly count permits 0 0 (f.complete number outcome) := by
  have hover : Orderly count permits 0 1
      { f with outcomes := f.outcomes ++ [(number, outcome)] } := by
    refine ⟨?_, h.permits, h.line⟩
    rw [← h.numbers, List.map_append, ← Multiset.coe_add]
    simp only [upcoming, begun, List.map_singleton, Multiset.coe_singleton]
    ac_rfl
  exact hover.release.enqueue rfl rfl

/-- What hands over control keeps its permit until it is over. -/
theorem follow (h : Orderly count permits {number} 1 f) (progress : Progress ρ α) :
    Orderly count permits 0 0 (f.follow number progress) := by
  have hnumbers := h.numbers
  have hpermits := h.permits
  cases progress with
  | finished outcome => exact h.complete outcome
  | yielded rest =>
      have hupcoming : (Turn.resume number rest).upcoming = 0 := rfl
      have hfree : (Turn.resume number rest).free = 0 := rfl
      refine ⟨?_, ?_, h.line⟩
      · rw [Fanout.follow, upcoming_enqueue, begun_enqueue, hupcoming, Turn.begun,
          Multiset.map_add, Multiset.map_singleton, ← hnumbers]
        simp only [Fanout.enqueue]
        ac_rfl
      · rw [Fanout.follow, begun_enqueue, free_enqueue, hfree, Turn.begun, Multiset.card_add,
          Multiset.card_singleton]
        omega
  | sleeping seconds rest =>
      refine ⟨?_, ?_, h.line⟩
      · rw [← hnumbers]
        simp only [Fanout.follow, upcoming, begun, List.map_append, List.map_singleton,
          ← Multiset.coe_add, Multiset.coe_singleton, Multiset.map_add, Multiset.map_singleton]
        ac_rfl
      · simp only [Fanout.follow, begun, free, List.map_append, List.map_singleton,
          ← Multiset.coe_add, Multiset.coe_singleton, Multiset.card_add, Multiset.card_singleton]
          at hpermits ⊢
        omega

theorem launch {items : List ι} (h : Orderly items.length permits {number} 1 f)
    (w : Work σ ι ρ α) : Orderly items.length permits 0 0 (f.launch w items number) := by
  have hn : number < items.length := h.lt_of_mem_hand (Multiset.mem_singleton_self number)
  unfold Fanout.launch
  rw [List.getElem?_eq_getElem hn]
  have hworld : Orderly items.length permits {number} 1
      { f with world := (w.begin items[number] f.world).2 } := ⟨h.numbers, h.permits, h.line⟩
  exact hworld.follow _

theorem pick {t : Turn ρ} {later : List (Turn ρ)} (h : Orderly count permits 0 0 f)
    (hready : f.ready = t :: later) :
    Orderly count permits (t.upcoming + t.begun.map Prod.fst) (t.free + t.begun.card)
      { f with ready := later } where
  numbers := by
    rw [← h.numbers, upcoming_of_ready hready, begun_of_ready hready, Multiset.map_add]
    ac_rfl
  permits := by
    have hpermits := h.permits
    rw [begun_of_ready hready, free_of_ready hready, Multiset.card_add] at hpermits
    omega
  line := h.line

theorem take {items : List ι} {t : Turn ρ} {later : List (Turn ρ)}
    (h : Orderly items.length permits 0 0 f) (hready : f.ready = t :: later) (w : Work σ ι ρ α)
    (patient : Bool) :
    Orderly items.length permits 0 0 ({ f with ready := later }.take w items patient t) := by
  have hpick := h.pick hready
  cases t with
  | begin number =>
      rw [Fanout.take]
      by_cases hp : f.permits = 0
      · rw [if_pos hp]
        refine ⟨?_, hpick.permits, fun _ => hp⟩
        rw [← hpick.numbers]
        simp only [upcoming, begun, Turn.upcoming, Turn.begun, Multiset.map_zero, add_zero,
          ← Multiset.coe_add, Multiset.coe_singleton]
        ac_rfl
      -- What begins takes one of the permits left, which it has in hand from here on.
      · rw [if_neg hp]
        have hheld : Orderly items.length permits {number} 1
            { f with ready := later, permits := f.permits - 1 } := by
          refine ⟨hpick.numbers, ?_, fun hw => absurd (h.line hw) hp⟩
          have hpermits := hpick.permits
          simp only [begun, free, Turn.free, Turn.begun, Multiset.card_zero] at hpermits ⊢
          omega
        exact hheld.launch w
  | permit number => exact hpick.launch w
  | resume number rest =>
      rw [Fanout.take]
      have hworld : Orderly items.length permits {number} 1
          { f with ready := later, world := (w.resume rest f.world).2 } :=
        ⟨hpick.numbers, hpick.permits, hpick.line⟩
      exact hworld.complete _
  | notice number failed =>
      rw [Fanout.take]
      split
      · exact hpick.enqueue rfl rfl
      · exact hpick
  | abandon => exact ⟨hpick.numbers, hpick.permits, hpick.line⟩

theorem begun_resumed (timers : List (Timer ρ)) :
    ((timers.map fun t => Turn.resume t.number t.rest).map Turn.begun).sum =
      ↑(timers.map fun t => (t.number, t.rest)) := by
  induction timers with
  | nil => rfl
  | cons t later ih =>
      rw [List.map_cons, List.map_cons, List.sum_cons, ih, Turn.begun, Multiset.singleton_add,
        List.map_cons, Multiset.cons_coe]

/-- Those that wake up and those that sleep on are together those that slept before. -/
theorem begun_wait (w : Work σ ι ρ α) (hready : f.ready = []) (due : Rat) :
    (f.wait w due).begun = f.begun := by
  have hperm := (List.filter_append_perm (fun t => decide (t.due ≤ due)) f.timers).map
    fun t => (t.number, t.rest)
  simp only [wait, List.partition_eq_filter_filter, begun, begun_resumed, hready, List.map_nil,
    List.sum_nil, add_zero, Multiset.coe_add, ← List.map_append, Multiset.coe_eq_coe]
  exact (List.perm_append_comm.map _).trans hperm

theorem upcoming_wait (w : Work σ ι ρ α) (hready : f.ready = []) (due : Rat) :
    (f.wait w due).upcoming = f.upcoming := by
  simp [wait, upcoming, hready, Function.comp_def, Turn.upcoming]

theorem free_wait (w : Work σ ι ρ α) (hready : f.ready = []) (due : Rat) :
    (f.wait w due).free = f.free := by
  simp [wait, free, hready, Function.comp_def, Turn.free]

theorem wait (h : Orderly count permits 0 0 f) (hready : f.ready = []) (w : Work σ ι ρ α)
    (due : Rat) : Orderly count permits 0 0 (f.wait w due) where
  numbers := by
    rw [upcoming_wait w hready, begun_wait w hready]
    exact h.numbers
  permits := by
    rw [begun_wait w hready, free_wait w hready]
    exact h.permits
  line := h.line

theorem step {items : List ι} {f' : Fanout σ ρ α} (h : Orderly items.length permits 0 0 f)
    {w : Work σ ι ρ α} {patient : Bool} (hs : f.step w items patient = some f') :
    Orderly items.length permits 0 0 f' := by
  obtain ⟨t, later, hready, rfl⟩ | ⟨hready, due, -, rfl⟩ := step_cases hs
  · exact h.take hready w patient
  · exact h.wait hready w due

theorem runFor {items : List ι} (h : Orderly items.length permits 0 0 f) (w : Work σ ι ρ α)
    (patient : Bool) (steps : Nat) :
    Orderly items.length permits 0 0 (f.runFor w items patient steps) :=
  runFor_preserves (fun _ _ horder hs => horder.step hs) h steps

end Orderly

/-- Nobody has lost interest in the rest, nor is about to. -/
def Calm (f : Fanout σ ρ α) : Prop := f.abandoned = false ∧ ∀ t ∈ f.ready, t ≠ .abandon

namespace Calm

theorem enqueue (h : f.Calm) {t : Turn ρ} (ht : t ≠ .abandon) : (f.enqueue t).Calm := by
  refine ⟨h.1, fun u hu => ?_⟩
  rcases List.mem_append.1 hu with hu | hu
  · exact h.2 u hu
  · exact List.mem_singleton.1 hu ▸ ht

theorem release (h : f.Calm) : f.release.Calm := by
  unfold Fanout.release
  split
  · exact h
  · rename_i next rest _
    have hshorter : ({ f with waiting := rest } : Fanout σ ρ α).Calm := h
    exact hshorter.enqueue (by simp)

theorem complete (h : f.Calm) (number : Nat) (outcome : Outcome α) :
    (f.complete number outcome).Calm := by
  have hover : ({ f with outcomes := f.outcomes ++ [(number, outcome)] } :
    Fanout σ ρ α).Calm := h
  exact hover.release.enqueue (by simp)

theorem follow (h : f.Calm) (number : Nat) (progress : Progress ρ α) :
    (f.follow number progress).Calm := by
  cases progress with
  | finished outcome => exact h.complete number outcome
  | yielded rest => exact h.enqueue (by simp)
  | sleeping seconds rest => exact h

theorem launch (h : f.Calm) (w : Work σ ι ρ α) (items : List ι) (number : Nat) :
    (f.launch w items number).Calm := by
  unfold Fanout.launch
  split
  · exact h
  · rename_i item _
    have hworld : ({ f with world := (w.begin item f.world).2 } : Fanout σ ρ α).Calm := h
    exact hworld.follow number _

theorem take {t : Turn ρ} {later : List (Turn ρ)} (h : f.Calm) (hready : f.ready = t :: later)
    (w : Work σ ι ρ α) (items : List ι) :
    ({ f with ready := later }.take w items true t).Calm := by
  rw [Calm, hready] at h
  obtain ⟨habandoned, ht, hlater⟩ := h.imp_right List.forall_mem_cons.1
  have hcalm : ({ f with ready := later } : Fanout σ ρ α).Calm := ⟨habandoned, hlater⟩
  cases t with
  | begin number =>
      rw [Fanout.take]
      split
      · exact hcalm
      · have hless : ({ f with ready := later, permits := f.permits - 1 } : Fanout σ ρ α).Calm :=
          hcalm
        exact hless.launch w items number
  | permit number => exact hcalm.launch w items number
  | resume number rest =>
      have hworld : ({ f with ready := later, world := (w.resume rest f.world).2 } :
        Fanout σ ρ α).Calm := hcalm
      exact hworld.complete number _
  | notice number failed => simpa [Fanout.take] using hcalm
  | abandon => exact absurd rfl ht

theorem step {items : List ι} {f' : Fanout σ ρ α} (h : f.Calm) {w : Work σ ι ρ α}
    (hs : f.step w items true = some f') : f'.Calm := by
  obtain ⟨t, later, hready, rfl⟩ | ⟨-, due, -, rfl⟩ := step_cases hs
  · exact h.take hready w items
  · refine ⟨h.1, fun t ht => ?_⟩
    obtain ⟨timer, -, rfl⟩ := List.mem_map.1 ht
    simp

theorem runFor (h : f.Calm) (w : Work σ ι ρ α) (items : List ι) (steps : Nat) :
    (f.runFor w items true steps).Calm :=
  runFor_preserves (fun _ _ hcalm hs => hcalm.step hs) h steps

end Calm

def IsOver (f : Fanout σ ρ α) : Prop := f.upcoming = 0 ∧ f.begun = 0

/-- Nobody stays in line when nothing runs any more: the permits are all free again. -/
theorem isOver_of_step_eq_none {w : Work σ ι ρ α} {items : List ι} {patient : Bool}
    {permits : Nat} (h : Orderly items.length permits 0 0 f) (hpermits : 0 < permits)
    (hcalm : f.abandoned = false) (hs : f.step w items patient = none) : f.IsOver := by
  rw [step, hcalm, if_neg Bool.false_ne_true] at hs
  split at hs
  · cases hs
  · rename_i hready
    have htimers : f.timers = [] := Timer.eq_nil_of_nextDue (Option.map_eq_none_iff.1 hs)
    have hbegun : f.begun = 0 := by simp [begun, htimers, hready]
    have hfree : f.free = f.permits := by simp [free, hready]
    have hall := h.permits
    rw [hbegun, hfree, Multiset.card_zero] at hall
    have hwaiting : f.waiting = [] := by
      by_contra hw
      have := h.line hw
      omega
    exact ⟨by simp [upcoming, hwaiting, hready], hbegun⟩

/-- A patient run with a permit at least comes to its end. -/
theorem isOver_run (w : Work σ ι ρ α) (items : List ι) {permits : Nat} (hpermits : 0 < permits)
    (clock : Rat) (world : σ) : (run w items permits true clock world).IsOver := by
  have horder := Orderly.start (ρ := ρ) (α := α) items.length permits clock world
  have hcalm : (start items.length permits clock world : Fanout σ ρ α).Calm :=
    ⟨rfl, by simp [start]⟩
  refine isOver_of_step_eq_none (horder.runFor w true _) hpermits (hcalm.runFor w items _).1
    (step_runFor_eq_none w items true ?_)
  rw [weight_start]
  exact Nat.le_add_right _ _

theorem Orderly.outcomes_perm {count permits : Nat} (h : Orderly count permits 0 0 f)
    (hover : f.IsOver) : (f.outcomes.map Prod.fst).Perm (List.range count) := by
  have hnumbers := h.numbers
  rw [hover.1, hover.2, Multiset.map_zero, add_zero, add_zero, zero_add] at hnumbers
  exact Multiset.coe_eq_coe.1 hnumbers

end Fanout

end Retrieval
