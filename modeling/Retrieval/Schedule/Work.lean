import Retrieval.Fault

/-!
# Work that takes time

A piece of work is begun, may have to wait once, and then ends with an outcome. While it waits other
work goes on, and so does what happens elsewhere in the world.
-/

namespace Retrieval

/-- How a piece of work stands when it hands over control: it is over, it lets others go first, or
it sleeps for some seconds. -/
inductive Progress (ρ α : Type)
  | finished (outcome : Outcome α)
  | yielded (rest : ρ)
  | sleeping (seconds : Rat) (rest : ρ)

/-- Work on items of type `ι` in a world of type `σ`; `ρ` is what is left to do after a wait. -/
structure Work (σ ι ρ α : Type) where
  begin : ι → σ → Progress ρ α × σ
  resume : ρ → σ → Outcome α × σ
  /-- What else happens in the world until an instant, given in seconds. -/
  elapse : (instant : Rat) → σ → σ

structure Timer (ρ : Type) where
  due : Rat
  number : Nat
  rest : ρ

namespace Timer

def nextDue {ρ : Type} : List (Timer ρ) → Option Rat
  | [] => none
  | t :: later => some (match nextDue later with
    | none => t.due
    | some due => if due < t.due then due else t.due)

end Timer

namespace Progress

def sleep {ρ α : Type} (seconds : Rat) (rest : ρ) : Progress ρ α :=
  if 0 < seconds then .sleeping seconds rest else .yielded rest

end Progress

end Retrieval
