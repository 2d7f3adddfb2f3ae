import Retrieval.Fault

/-!
# Calls to remote services

A call to a service may time out, find nobody there, or be answered with an error of the service;
anything else that goes wrong is a fault of its own.
-/

namespace Retrieval.Remote

inductive Failure
  | timedOut
  | unreachable (message : String)
  | refused (message : String)
  | fault (f : Fault)
deriving DecidableEq, Repr

def timedOutMessage : String := "Request timed out."

def unreachableFault (label message : String) : Fault :=
  .fromProvider .unavailable label (label ++ " unreachable: " ++ message)

def refusedFault (label message : String) : Fault :=
  .fromProvider .retrieval label (label ++ " API error: " ++ message)

/-- A failed call to the service called `label`. A call that timed out counts as unanswered. -/
def Failure.toFault (label : String) : Failure → Fault
  | .timedOut => unreachableFault label timedOutMessage
  | .unreachable message => unreachableFault label message
  | .refused message => refusedFault label message
  | .fault f => f

/-- What a service answers, in a world it may change. -/
abbrev Call (ω α : Type) := ExceptT Failure (StateM ω) α

end Retrieval.Remote
