import Retrieval.Schedule.Work

/-!
# Bounded fan-out

Many pieces of work run side by side, but no more than a number of permits at once. They begin in
order; one that finds no permit waits in line and is handed the permit of the next one that ends.
Whatever can run runs in the order in which it became ready, and time passes only when nothing can.
-/

namespace Retrieval

/-- What is to run next. Pieces of work go by their number in the list. -/
inductive Turn (ρ : Type)
  | begin (number : Nat)
  /-- A permit was handed over. -/
  | permit (number : Nat)
  | resume (number : Nat) (rest : ρ)
  /-- A piece of work is over; `failed` if it ended with a fault. -/
  | notice (number : Nat) (failed : Bool)
  /-- Nobody is interested in the rest. -/
  | abandon

structure Fanout (σ ρ α : Type) where
  world : σ
  clock : Rat
  permits : Nat
  /-- In line for a permit. -/
  waiting : List Nat
  ready : List (Turn ρ)
  timers : List (Timer ρ)
  /-- Outcomes in the order of completion. -/
  outcomes : List (Nat × Outcome α)
  abandoned : Bool

namespace Fanout

variable {σ ι ρ α : Type}

def start (count permits : Nat) (clock : Rat) (world : σ) : Fanout σ ρ α where
  world := world
  clock := clock
  permits := permits
  waiting := []
  ready := (List.range count).map .begin
  timers := []
  outcomes := []
  abandoned := false

def enqueue (f : Fanout σ ρ α) (turn : Turn ρ) : Fanout σ ρ α :=
  { f with ready := f.ready ++ [turn] }

def release (f : Fanout σ ρ α) : Fanout σ ρ α :=
  match f.waiting with
  | [] => { f with permits := f.permits + 1 }
  | next :: rest => { f with waiting := rest }.enqueue (.permit next)

def isFailure : Outcome α → Bool
  | .ok _ => false
  | .error _ => true

def complete (f : Fanout σ ρ α) (number : Nat) (outcome : Outcome α) : Fanout σ ρ α :=
  { f with outcomes := f.outcomes ++ [(number, outcome)] }.release.enqueue
    (.notice number (isFailure outcome))

def follow (f : Fanout σ ρ α) (number : Nat) : Progress ρ α → Fanout σ ρ α
  | .finished outcome => f.complete number outcome
  | .yielded rest => f.enqueue (.resume number rest)
  | .sleeping seconds rest =>
      { f with timers := f.timers ++ [⟨f.clock + seconds, number, rest⟩] }

def launch (w : Work σ ι ρ α) (items : List ι) (f : Fanout σ ρ α) (number : Nat) :
    Fanout σ ρ α :=
  match items[number]? with
  | none => f
  | some item =>
      let (progress, world) := w.begin item f.world
      { f with world }.follow number progress

/-- Takes one turn. With `patient` the faults of single pieces of work stop nothing. -/
def take (w : Work σ ι ρ α) (items : List ι) (patient : Bool) (f : Fanout σ ρ α) :
    Turn ρ → Fanout σ ρ α
  | .begin number =>
      if f.permits = 0 then { f with waiting := f.waiting ++ [number] }
      else { f with permits := f.permits - 1 }.launch w items number
  | .permit number => f.launch w items number
  | .resume number rest =>
      let (outcome, world) := w.resume rest f.world
      { f with world }.complete number outcome
  | .notice _ failed => if failed && !patient then f.enqueue .abandon else f
  | .abandon => { f with abandoned := true }

def wait (w : Work σ ι ρ α) (f : Fanout σ ρ α) (due : Rat) : Fanout σ ρ α :=
  let (now, later) := f.timers.partition fun t => t.due ≤ due
  { f with world := w.elapse due f.world, clock := due, timers := later,
           ready := now.map fun t => .resume t.number t.rest }

def step (w : Work σ ι ρ α) (items : List ι) (patient : Bool) (f : Fanout σ ρ α) :
    Option (Fanout σ ρ α) :=
  if f.abandoned then none
  else match f.ready with
    | turn :: rest => some ({ f with ready := rest }.take w items patient turn)
    | [] => (Timer.nextDue f.timers).map (f.wait w)

def runFor (w : Work σ ι ρ α) (items : List ι) (patient : Bool) :
    (steps : Nat) → Fanout σ ρ α → Fanout σ ρ α
  | 0, f => f
  | steps + 1, f =>
      match f.step w items patient with
      | none => f
      | some f => runFor w items patient steps f

/-- Runs all work; each piece takes four turns and one wait at most. -/
def run (w : Work σ ι ρ α) (items : List ι) (permits : Nat) (patient : Bool) (clock : Rat)
    (world : σ) : Fanout σ ρ α :=
  runFor w items patient (6 * items.length + 2) (start items.length permits clock world)

def outcomeOf (f : Fanout σ ρ α) (number : Nat) : Option (Outcome α) := f.outcomes.lookup number

def inOrder (f : Fanout σ ρ α) (count : Nat) : List (Outcome α) :=
  (List.range count).filterMap f.outcomeOf

/-- The numbers of the pieces of work that have begun and wait for time to pass or for their turn.
-/
def running (f : Fanout σ ρ α) : List Nat :=
  f.timers.map (·.number) ++ f.ready.filterMap fun
    | .resume number _ => some number
    | _ => none

def fault? (f : Fanout σ ρ α) : Option Fault :=
  f.outcomes.findSome? fun
    | (_, .error fault) => some fault
    | _ => none

end Fanout

/-- As many permits as the host has cores, one if that is not known. -/
def defaultPermits (cores : Option Int) : Nat :=
  match cores with
  | some n => (max 1 n).toNat
  | none => 1

def checkPermits (permits : Int) : Outcome Nat :=
  if permits < 0 then .error (.badValue "Semaphore initial value must be >= 0")
  else .ok permits.toNat

end Retrieval
