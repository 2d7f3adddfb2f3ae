import Retrieval.Schedule.Work

/-!
# Background workers

Jobs are put on a queue and served one at a time by a loop. A queue with a capacity makes those who
put entries wait while it is full. A stop mark on the queue ends the loop that takes it; what comes
after the mark stays until another loop is launched. Who waits to put or to take is served in line,
but one who is woken may find that another was faster and waits again.
-/

namespace Retrieval

inductive Entry (ι : Type)
  | job (item : ι)
  | stop
deriving DecidableEq, Repr

inductive WorkerTurn (ι ρ : Type)
  /-- There was room for an entry. -/
  | retry (entry : Entry ι)
  /-- There was an entry for a loop. -/
  | serve (loop : Nat)
  | resume (loop : Nat) (rest : ρ)

structure Worker (ι ρ : Type) where
  /-- How many entries the queue holds; a number that is not positive sets no limit. -/
  capacity : Int
  queue : List (Entry ι)
  /-- Entries waiting for room. -/
  blocked : List (Entry ι)
  /-- Loops waiting for an entry. -/
  idle : List Nat
  ready : List (WorkerTurn ι ρ)
  /-- Jobs that sleep, with the loops that serve them. -/
  asleep : List (Timer ρ)
  clock : Rat
  /-- How many loops were launched. -/
  loops : Nat
  processed : Nat
  failed : Nat
  /-- Entries that were queued and are not done. -/
  unfinished : Nat
  running : Bool
  /-- For everyone who waits for the queue to be done, whether it was. -/
  joins : List Bool

namespace Worker

variable {σ ι ρ α : Type}

def new (capacity : Int) : Worker ι ρ where
  capacity := capacity
  queue := []
  blocked := []
  idle := []
  ready := []
  asleep := []
  clock := 0
  loops := 0
  processed := 0
  failed := 0
  unfinished := 0
  running := false
  joins := []

def isFull (k : Worker ι ρ) : Bool := 0 < k.capacity && k.capacity ≤ k.queue.length

def wakeLoop (k : Worker ι ρ) : Worker ι ρ :=
  match k.idle with
  | [] => k
  | loop :: rest => { k with idle := rest, ready := k.ready ++ [.serve loop] }

def wakePut (k : Worker ι ρ) : Worker ι ρ :=
  match k.blocked with
  | [] => k
  | entry :: rest => { k with blocked := rest, ready := k.ready ++ [.retry entry] }

/-- Puts an entry on the queue, or in line while the queue is full. -/
def put (k : Worker ι ρ) (entry : Entry ι) : Worker ι ρ :=
  if k.isFull then { k with blocked := k.blocked ++ [entry] }
  else { k with queue := k.queue ++ [entry], unfinished := k.unfinished + 1 }.wakeLoop

def join (k : Worker ι ρ) : Worker ι ρ := { k with joins := k.joins ++ [k.unfinished == 0] }

/-- One entry is done; when it was the last, everyone who waited for that is told. -/
def entryDone (k : Worker ι ρ) : Worker ι ρ :=
  { k with unfinished := k.unfinished - 1,
           joins := if k.unfinished ≤ 1 then k.joins.map fun _ => true else k.joins }

def count (k : Worker ι ρ) : Outcome α → Worker ι ρ
  | .ok _ => { k with processed := k.processed + 1 }
  | .error _ => { k with failed := k.failed + 1 }

/-- A loop takes entries until none is left, a job sleeps, or it takes a stop mark. The entries are
those of the queue. -/
def drain (w : Work σ ι ρ α) (loop : Nat) :
    List (Entry ι) → Worker ι ρ → σ → Worker ι ρ × σ
  | [], k, s => ({ k with queue := [], idle := k.idle ++ [loop] }, s)
  | .stop :: rest, k, s => ({ { k with queue := rest }.wakePut.entryDone with running := false }, s)
  | .job item :: rest, k, s =>
      let k := { k with queue := rest }.wakePut
      match w.begin item s with
      | (.finished outcome, s) => drain w loop rest (k.count outcome).entryDone s
      | (.yielded r, s) => ({ k with ready := k.ready ++ [.resume loop r] }, s)
      | (.sleeping seconds r, s) =>
          ({ k with asleep := k.asleep ++ [⟨k.clock + seconds, loop, r⟩] }, s)

def launch (w : Work σ ι ρ α) (k : Worker ι ρ) (s : σ) : Worker ι ρ × σ :=
  drain w k.loops k.queue { k with running := true, loops := k.loops + 1 } s

def take (w : Work σ ι ρ α) (k : Worker ι ρ) (s : σ) : WorkerTurn ι ρ → Worker ι ρ × σ
  | .retry entry => (k.put entry, s)
  | .serve loop => drain w loop k.queue k s
  | .resume loop rest =>
      let (outcome, s) := w.resume rest s
      drain w loop k.queue (k.count outcome).entryDone s

def settleFor (w : Work σ ι ρ α) : (turns : Nat) → Worker ι ρ → σ → Worker ι ρ × σ
  | 0, k, s => (k, s)
  | turns + 1, k, s =>
      match k.ready with
      | [] => (k, s)
      | turn :: rest =>
          let (k, s) := { k with ready := rest }.take w s turn
          settleFor w turns k s

def pendingWork (k : Worker ι ρ) : Nat := k.queue.length + k.blocked.length + k.ready.length

/-- Lets everything run that can run without time passing. Each entry is put and taken once, and
woken for at most once each time. -/
def settle (w : Work σ ι ρ α) (k : Worker ι ρ) (s : σ) : Worker ι ρ × σ :=
  settleFor w (5 * k.pendingWork + 1) k s

def wakeDue (k : Worker ι ρ) (due : Rat) : Worker ι ρ :=
  let (now, later) := k.asleep.partition fun t => t.due ≤ due
  { k with clock := due, asleep := later,
           ready := k.ready ++ now.map fun t => .resume t.number t.rest }

def passFor (w : Work σ ι ρ α) (instant : Rat) :
    (naps : Nat) → Worker ι ρ → σ → Worker ι ρ × σ
  | 0, k, s => ({ k with clock := instant }, s)
  | naps + 1, k, s =>
      match Timer.nextDue k.asleep with
      | none => ({ k with clock := instant }, s)
      | some due =>
          if due ≤ instant then
            let (k, s) := (k.wakeDue due).settle w s
            passFor w instant naps k s
          else ({ k with clock := instant }, s)

/-- Lets time pass until an instant. Each job sleeps at most once. -/
def pass (w : Work σ ι ρ α) (instant : Rat) (k : Worker ι ρ) (s : σ) : Worker ι ρ × σ :=
  passFor w instant (k.asleep.length + k.pendingWork) k s

def blockedPuts (k : Worker ι ρ) : Nat :=
  k.blocked.length + (k.ready.filter fun
    | .retry _ => true
    | _ => false).length

end Worker

end Retrieval
