import Mathlib.Data.List.Range
import Retrieval.Proofs.Schedule.Fanout
import Retrieval.Proofs.Schedule.Noting

/-!
# The order in which a fan-out begins its work

What is still to begin stands in line behind those who were handed a permit and before those who
have not been seen to: taken together they are the last items in order. So whatever begins is the
next item, and the items begun are at every moment the first ones.
-/

namespace Retrieval

namespace Turn

variable {ρ : Type}

def permit? : Turn ρ → Option Nat
  | .permit number => some number
  | _ => none

def isBegin : Turn ρ → Bool
  | .begin _ => true
  | _ => false

end Turn

namespace Fanout

variable {σ ι ρ α : Type}

section Unnoted

variable (w : Work σ ι ρ α) (f : Fanout (σ × Notes ι α) ρ α)

def unnoted : Fanout σ ρ α := { f with world := f.world.1 }

theorem unnoted_release : f.release.unnoted = f.unnoted.release := by
  obtain ⟨world, clock, permits, waiting, ready, timers, outcomes, abandoned⟩ := f
  cases waiting <;> rfl

theorem unnoted_complete (number : Nat) (outcome : Outcome α) :
    (f.complete number outcome).unnoted = f.unnoted.complete number outcome := by
  have hrelease := unnoted_release { f with outcomes := f.outcomes ++ [(number, outcome)] }
  exact congrArg (·.enqueue (.notice number (isFailure outcome))) hrelease

theorem unnoted_follow (number : Nat) (progress : Progress ρ α) :
    (f.follow number progress).unnoted = f.unnoted.follow number progress := by
  cases progress with
  | finished outcome => exact unnoted_complete f number outcome
  | yielded rest | sleeping seconds rest => rfl

theorem unnoted_launch (items : List ι) (number : Nat) :
    (f.launch w.noted items number).unnoted = f.unnoted.launch w items number := by
  unfold launch
  cases items[number]? with
  | none => rfl
  | some item => exact unnoted_follow _ _ _

theorem unnoted_take (items : List ι) (patient : Bool) (t : Turn ρ) :
    (f.take w.noted items patient t).unnoted = f.unnoted.take w items patient t := by
  cases t with
  | begin number =>
      rw [take, take]
      by_cases hp : f.permits = 0
      · have hp' : f.unnoted.permits = 0 := hp
        rw [if_pos hp, if_pos hp']
        rfl
      · have hp' : f.unnoted.permits ≠ 0 := hp
        rw [if_neg hp, if_neg hp']
        exact unnoted_launch w _ items number
  | permit number => exact unnoted_launch w f items number
  | resume number rest => exact unnoted_complete _ _ _
  | notice number failed =>
      rw [take, take]
      split <;> rfl
  | abandon => rfl

theorem unnoted_step (items : List ι) (patient : Bool) :
    (f.step w.noted items patient).map unnoted = f.unnoted.step w items patient := by
  unfold step
  have habandoned : f.unnoted.abandoned = f.abandoned := rfl
  have hready : f.unnoted.ready = f.ready := rfl
  rw [habandoned, hready]
  by_cases hover : f.abandoned = true
  · rw [if_pos hover, if_pos hover]
    rfl
  · rw [if_neg hover, if_neg hover]
    cases f.ready with
    | nil =>
        show ((Timer.nextDue f.timers).map _).map _ = (Timer.nextDue f.timers).map _
        rw [Option.map_map]
        rfl
    | cons t later => exact congrArg some (unnoted_take w _ items patient t)

theorem unnoted_runFor (items : List ι) (patient : Bool) (steps : Nat) :
    (f.runFor w.noted items patient steps).unnoted = f.unnoted.runFor w items patient steps := by
  induction steps generalizing f with
  | zero => rfl
  | succ steps ih =>
      have hstep := unnoted_step w f items patient
      rw [runFor, runFor, ← hstep]
      cases f.step w.noted items patient with
      | none => rfl
      | some f' => exact ih f'

end Unnoted

/-- Everything from number `m` on is still to begin, in order: first what was handed a permit, then
who waits for one, then who was not seen to yet. -/
structure Lineup (count m : Nat) (fresh : List Nat) (rest : List (Turn ρ)) (f : Fanout σ ρ α) :
    Prop where
  ready : f.ready = fresh.map .begin ++ rest
  seen : ∀ t ∈ rest, t.isBegin = false
  /-- Nobody is handed a permit before everybody was seen to. -/
  first : fresh ≠ [] → rest.filterMap Turn.permit? = []
  line : rest.filterMap Turn.permit? ++ (f.waiting ++ fresh) = List.range' m (count - m)

namespace Lineup

variable {f : Fanout σ ρ α} {count m : Nat} {fresh : List Nat} {rest : List (Turn ρ)}

theorem start (count permits : Nat) (clock : Rat) (world : σ) :
    Lineup count 0 (List.range count) [] (start count permits clock world : Fanout σ ρ α) where
  ready := (List.append_nil _).symm
  seen _ h := nomatch h
  first _ := rfl
  line := by
    show [] ++ ([] ++ List.range count) = _
    rw [List.nil_append, List.nil_append, List.range_eq_range', Nat.sub_zero]

theorem enqueue {t : Turn ρ} (h : Lineup count m fresh rest f) (hbegin : t.isBegin = false)
    (hpermit : t.permit? = none) : Lineup count m fresh (rest ++ [t]) (f.enqueue t) := by
  have hnone : (rest ++ [t]).filterMap Turn.permit? = rest.filterMap Turn.permit? := by
    simp [hpermit]
  refine ⟨?_, ?_, ?_, ?_⟩
  · show f.ready ++ [t] = _
    rw [h.ready, List.append_assoc]
  · intro u hu
    rcases List.mem_append.1 hu with hu | hu
    · exact h.seen u hu
    · exact List.mem_singleton.1 hu ▸ hbegin
  · rw [hnone]
    exact h.first
  · rw [hnone]
    exact h.line

theorem release (h : Lineup count m fresh rest f) (hseen : fresh ≠ [] → f.waiting = []) :
    ∃ rest', Lineup count m fresh rest' f.release := by
  unfold Fanout.release
  split
  · exact ⟨rest, { h with }⟩
  · rename_i next others hwaiting
    have hfresh : fresh = [] := by
      by_contra hne
      rw [hseen hne] at hwaiting
      cases hwaiting
    subst hfresh
    have hline := h.line
    rw [hwaiting] at hline
    refine ⟨rest ++ [.permit next], ?_, ?_, fun hne => absurd rfl hne, ?_⟩
    · exact congrArg (· ++ [Turn.permit next]) h.ready
    · intro u hu
      rcases List.mem_append.1 hu with hu | hu
      · exact h.seen u hu
      · rw [List.mem_singleton.1 hu]
        rfl
    · rw [List.filterMap_append, ← hline, List.append_assoc]
      rfl

theorem complete (h : Lineup count m fresh rest f) (hseen : fresh ≠ [] → f.waiting = [])
    (number : Nat) (outcome : Outcome α) :
    ∃ rest', Lineup count m fresh rest' (f.complete number outcome) := by
  have hover : Lineup count m fresh rest { f with outcomes := f.outcomes ++ [(number, outcome)] } :=
    { h with }
  obtain ⟨rest', hrelease⟩ := hover.release hseen
  exact ⟨_, hrelease.enqueue rfl rfl⟩

theorem follow (h : Lineup count m fresh rest f) (hseen : fresh ≠ [] → f.waiting = [])
    (number : Nat) (progress : Progress ρ α) :
    ∃ rest', Lineup count m fresh rest' (f.follow number progress) := by
  cases progress with
  | finished outcome => exact h.complete hseen number outcome
  | yielded r => exact ⟨_, h.enqueue rfl rfl⟩
  | sleeping seconds r => exact ⟨rest, { h with }⟩

theorem launch (h : Lineup count m fresh rest f) (hseen : fresh ≠ [] → f.waiting = [])
    (w : Work σ ι ρ α) (items : List ι) (number : Nat) :
    ∃ rest', Lineup count m fresh rest' (f.launch w items number) := by
  unfold Fanout.launch
  split
  · exact ⟨rest, h⟩
  · rename_i item _
    have hworld : Lineup count m fresh rest { f with world := (w.begin item f.world).2 } :=
      { h with }
    exact hworld.follow hseen number _

theorem wait (h : Lineup count m fresh rest f) (hready : f.ready = []) (w : Work σ ι ρ α)
    (due : Rat) : ∃ rest', Lineup count m [] rest' (f.wait w due) := by
  obtain ⟨hfresh, rfl⟩ := List.append_eq_nil_iff.1 (h.ready.symm.trans hready)
  rw [List.map_eq_nil_iff] at hfresh
  subst hfresh
  have hnobody (timers : List (Timer ρ)) :
      (timers.map fun t => Turn.resume t.number t.rest).filterMap Turn.permit? = [] := by
    simp [List.filterMap_map, Function.comp_def, Turn.permit?]
  refine ⟨_, rfl, ?_, fun _ => hnobody _, ?_⟩
  · intro t ht
    obtain ⟨timer, -, rfl⟩ := List.mem_map.1 ht
    rfl
  · rw [hnobody]
    exact h.line

section Ready

variable {t : Turn ρ} {later : List (Turn ρ)} {number : Nat}

theorem exists_cons_of_begin (h : Lineup count m fresh rest f)
    (hready : f.ready = .begin number :: later) :
    ∃ fresh', fresh = number :: fresh' ∧ later = fresh'.map .begin ++ rest := by
  have hall := h.ready.symm.trans hready
  cases fresh with
  | nil =>
      have hbegin := h.seen (.begin number) (by
        rw [List.map_nil, List.nil_append] at hall
        exact hall ▸ List.mem_cons_self)
      cases hbegin
  | cons n fresh' =>
      obtain ⟨hn, hlater⟩ := List.cons.inj hall
      exact ⟨fresh', by rw [Turn.begin.inj hn], hlater.symm⟩

theorem eq_nil_of_seen (h : Lineup count m fresh rest f) (hready : f.ready = t :: later)
    (ht : t.isBegin = false) : fresh = [] ∧ rest = t :: later := by
  have hall := h.ready.symm.trans hready
  cases fresh with
  | nil => exact ⟨rfl, hall⟩
  | cons n fresh' =>
      rw [← (List.cons.inj hall).1] at ht
      cases ht

theorem eq_of_line {numbers : List Nat} (h : number :: numbers = List.range' m (count - m)) :
    number = m ∧ m < count ∧ numbers = List.range' (m + 1) (count - (m + 1)) := by
  cases hleft : count - m with
  | zero =>
      rw [hleft] at h
      cases h
  | succ left =>
      rw [hleft, List.range'_succ] at h
      obtain ⟨rfl, rfl⟩ := List.cons.inj h
      have hless : count - (number + 1) = left := by omega
      exact ⟨rfl, by omega, by rw [hless]⟩

theorem queue (h : Lineup count m fresh rest f) (hready : f.ready = .begin number :: later) :
    ∃ fresh', Lineup count m fresh' rest
      { f with ready := later, waiting := f.waiting ++ [number] } := by
  obtain ⟨fresh', rfl, hlater⟩ := h.exists_cons_of_begin hready
  refine ⟨fresh', hlater, h.seen, fun _ => h.first (List.cons_ne_nil _ _), ?_⟩
  have hline := h.line
  rwa [← List.append_cons]

theorem arrive (h : Lineup count m fresh rest f) (hready : f.ready = .begin number :: later)
    (hnobody : f.waiting = []) (permits : Nat) : number = m ∧ m < count ∧
      ∃ fresh', Lineup count (m + 1) fresh' rest { f with ready := later, permits } := by
  obtain ⟨fresh', rfl, hlater⟩ := h.exists_cons_of_begin hready
  have hfirst := h.first (List.cons_ne_nil _ _)
  have hline := h.line
  rw [hfirst, hnobody] at hline
  obtain ⟨hnumber, hm, hothers⟩ := eq_of_line hline
  refine ⟨hnumber, hm, fresh', hlater, h.seen, fun _ => hfirst, ?_⟩
  show rest.filterMap Turn.permit? ++ (f.waiting ++ fresh') = _
  rw [hfirst, hnobody, ← hothers]
  rfl

theorem accept (h : Lineup count m fresh rest f) (hready : f.ready = .permit number :: later) :
    number = m ∧ m < count ∧ Lineup count (m + 1) [] later { f with ready := later } := by
  obtain ⟨rfl, rfl⟩ := h.eq_nil_of_seen hready rfl
  obtain ⟨hnumber, hm, hothers⟩ := eq_of_line h.line
  exact ⟨hnumber, hm, rfl, fun t ht => h.seen t (List.mem_cons_of_mem _ ht),
    fun hne => absurd rfl hne, hothers⟩

theorem pass (h : Lineup count m fresh rest f) (hready : f.ready = t :: later)
    (hbegin : t.isBegin = false) (hpermit : t.permit? = none) :
    Lineup count m [] later { f with ready := later } := by
  obtain ⟨rfl, rfl⟩ := h.eq_nil_of_seen hready hbegin
  have hline := h.line
  rw [List.filterMap_cons_none hpermit] at hline
  exact ⟨rfl, fun t ht => h.seen t (List.mem_cons_of_mem _ ht), fun hne => absurd rfl hne, hline⟩

end Ready

end Lineup

/-- What the notes of a fan-out tell when the first `m` items have begun. -/
structure Recorded (items : List ι) (m : Nat) (f : Fanout (σ × Notes ι α) ρ α) : Prop where
  begun : f.world.2.begun = items.take m
  ended : f.world.2.ended = f.outcomes.map Prod.snd

namespace Recorded

variable {items : List ι} {m : Nat} {f : Fanout (σ × Notes ι α) ρ α}

theorem complete (hbegun : f.world.2.begun = items.take m) {outcome : Outcome α}
    (hended : f.world.2.ended = f.outcomes.map Prod.snd ++ [outcome]) (number : Nat) :
    Recorded items m (f.complete number outcome) where
  begun := by rw [world_complete, hbegun]
  ended := by rw [world_complete, hended, outcomes_complete, List.map_append, List.map_singleton]

theorem launch (h : Recorded items m f) (w : Work σ ι ρ α) (hm : m < items.length) :
    Recorded items (m + 1) (f.launch w.noted items m) := by
  have hbegun : f.world.2.begun ++ [items[m]] = items.take (m + 1) := by
    rw [h.begun, List.take_append_getElem]
  unfold Fanout.launch
  rw [List.getElem?_eq_getElem hm]
  simp only [Work.noted_begin]
  cases (w.begin items[m] f.world.1).1 with
  | finished outcome => exact complete hbegun (congrArg (· ++ [outcome]) h.ended) m
  | yielded r | sleeping seconds r => exact ⟨hbegun, h.ended⟩

end Recorded

/-- The first `m` items have begun, and the others are in line. -/
structure Advanced (items : List ι) (m : Nat) (f : Fanout (σ × Notes ι α) ρ α) : Prop
    extends Recorded items m f where
  bound : m ≤ items.length
  line : ∃ fresh rest, Lineup items.length m fresh rest f

namespace Advanced

variable {items : List ι} {permits m : Nat} {f : Fanout (σ × Notes ι α) ρ α}

theorem start (items : List ι) (permits : Nat) (clock : Rat) (world : σ) :
    Advanced items 0 (start items.length permits clock (world, Notes.none) :
      Fanout (σ × Notes ι α) ρ α) where
  begun := rfl
  ended := rfl
  bound := Nat.zero_le _
  line := ⟨_, _, .start items.length permits clock (world, Notes.none)⟩

theorem launch {fresh : List Nat} {rest : List (Turn ρ)} (hrecorded : Recorded items m f)
    (hline : Lineup items.length (m + 1) fresh rest f) (hseen : fresh ≠ [] → f.waiting = [])
    (hm : m < items.length) (w : Work σ ι ρ α) :
    Advanced items (m + 1) (f.launch w.noted items m) := by
  obtain ⟨rest', hline⟩ := hline.launch hseen w.noted items m
  exact ⟨hrecorded.launch w hm, hm, fresh, rest', hline⟩

/-- A turn begins the next item, for which a permit was free, or none. -/
theorem take {t : Turn ρ} {later : List (Turn ρ)} (h : Advanced items m f)
    (horder : Orderly items.length permits 0 0 f) (hready : f.ready = t :: later)
    (w : Work σ ι ρ α) (patient : Bool) :
    let f' := { f with ready := later }.take w.noted items patient t
    Advanced items m f' ∨ 0 < f.free ∧ Advanced items (m + 1) f' := by
  obtain ⟨fresh, rest, hline⟩ := h.line
  cases t with
  | begin number =>
      rw [Fanout.take]
      by_cases hp : f.permits = 0
      · left
        rw [if_pos hp]
        obtain ⟨fresh', hqueued⟩ := hline.queue hready
        exact ⟨⟨h.begun, h.ended⟩, h.bound, fresh', rest, hqueued⟩
      · right
        rw [if_neg hp]
        have hnobody : f.waiting = [] := by
          by_contra hne
          exact hp (horder.line hne)
        obtain ⟨rfl, hm, fresh', hadmitted⟩ := hline.arrive hready hnobody (f.permits - 1)
        have hrecorded : Recorded items number
            { f with ready := later, permits := f.permits - 1 } := ⟨h.begun, h.ended⟩
        refine ⟨Nat.lt_of_lt_of_le (Nat.pos_of_ne_zero hp) (Nat.le_add_right _ _), ?_⟩
        exact launch hrecorded hadmitted (fun _ => hnobody) hm w
  | permit number =>
      right
      obtain ⟨rfl, hm, haccepted⟩ := hline.accept hready
      have hrecorded : Recorded items number { f with ready := later } := ⟨h.begun, h.ended⟩
      refine ⟨?_, launch hrecorded haccepted (fun hne => absurd rfl hne) hm w⟩
      rw [free_of_ready hready]
      exact Nat.lt_of_lt_of_le Nat.one_pos (Nat.le_add_right _ _)
  | resume number r =>
      left
      have hworld : Lineup items.length m [] later
          { f with ready := later, world := (w.noted.resume r f.world).2 } :=
        { hline.pass hready rfl rfl with }
      obtain ⟨rest', hcompleted⟩ :=
        hworld.complete (fun hne => absurd rfl hne) number (w.resume r f.world.1).1
      have hended : f.world.2.ended ++ [(w.resume r f.world.1).1] =
          f.outcomes.map Prod.snd ++ [(w.resume r f.world.1).1] := by rw [h.ended]
      refine ⟨Recorded.complete ?_ ?_ number, h.bound, [], rest', hcompleted⟩
      · exact h.begun
      · exact hended
  | notice number failed =>
      left
      have hpassed := hline.pass hready rfl rfl
      rw [Fanout.take]
      split
      · exact ⟨⟨h.begun, h.ended⟩, h.bound, [], _, hpassed.enqueue rfl rfl⟩
      · exact ⟨⟨h.begun, h.ended⟩, h.bound, [], _, hpassed⟩
  | abandon =>
      left
      exact ⟨⟨h.begun, h.ended⟩, h.bound, [], _, { hline.pass hready rfl rfl with }⟩

theorem step (h : Advanced items m f) (horder : Orderly items.length permits 0 0 f)
    {w : Work σ ι ρ α} {patient : Bool} {f' : Fanout (σ × Notes ι α) ρ α}
    (hs : f.step w.noted items patient = some f') :
    Advanced items m f' ∨ 0 < f.free ∧ Advanced items (m + 1) f' := by
  obtain ⟨t, later, hready, rfl⟩ | ⟨hready, due, -, rfl⟩ := step_cases hs
  · exact h.take horder hready w patient
  · obtain ⟨fresh, rest, hline⟩ := h.line
    obtain ⟨rest', hwaited⟩ := hline.wait hready w.noted due
    exact .inl ⟨⟨h.begun, h.ended⟩, h.bound, [], rest', hwaited⟩

theorem runFor (h : Advanced items m f) (horder : Orderly items.length permits 0 0 f)
    (w : Work σ ι ρ α) (patient : Bool) (steps : Nat) :
    ∃ m', Advanced items m' (f.runFor w.noted items patient steps) := by
  have hstep (f f' : Fanout (σ × Notes ι α) ρ α)
      (hf : Orderly items.length permits 0 0 f ∧ ∃ m, Advanced items m f)
      (hs : f.step w.noted items patient = some f') :
      Orderly items.length permits 0 0 f' ∧ ∃ m, Advanced items m f' := by
    obtain ⟨horder, m, h⟩ := hf
    refine ⟨horder.step hs, ?_⟩
    rcases h.step horder hs with h' | ⟨-, h'⟩
    · exact ⟨m, h'⟩
    · exact ⟨m + 1, h'⟩
  exact (runFor_preserves hstep ⟨horder, m, h⟩ steps).2

end Advanced

end Fanout

end Retrieval
