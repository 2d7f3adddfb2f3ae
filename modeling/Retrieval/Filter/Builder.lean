import Retrieval.Filter.Basic

/-!
# Building filters

A builder collects filters one after the other; every step makes a new builder and leaves the old
one as it is. What was collected is joined by "and" or by "or"; a single filter stands for itself,
and an empty builder cannot be joined.
-/

namespace Retrieval.Filter

structure Builder where
  nodes : List Filter

namespace Builder

def empty : Builder := ⟨[]⟩

def append (b : Builder) (filter : Filter) : Builder := ⟨b.nodes ++ [filter]⟩

def predicate (b : Builder) (field : String) (op : Operator) (value : Value) : Builder :=
  b.append (.pred ⟨field, op, value⟩)

/-- Bounds from both sides, each a predicate of its own. -/
def range (b : Builder) (field : String) (low high : Value) : Builder :=
  (b.predicate field .gte low).predicate field .lte high

def emptyFault (combinator : String) : Fault :=
  .configuration ("Cannot apply '" ++ combinator ++ "' to an empty filter builder")

def joinAll (b : Builder) : Outcome Filter :=
  match b.nodes with
  | [] => .error (emptyFault "and")
  | [filter] => .ok filter
  | filters => .ok (.all filters)

def joinAny (b : Builder) : Outcome Filter :=
  match b.nodes with
  | [] => .error (emptyFault "or")
  | [filter] => .ok filter
  | filters => .ok (.any filters)

def negation (b : Builder) : Outcome Filter :=
  if b.nodes.isEmpty then .error (emptyFault "not") else (joinAll b).map .not

end Builder

/-- A step of building. Groups are built from their own steps. -/
inductive Call
  | predicate (field : String) (op : Operator) (value : Value)
  | range (field : String) (low high : Value)
  | allGroup (calls : List Call)
  | anyGroup (calls : List Call)

mutual

def Builder.apply (b : Builder) : Call → Outcome Builder
  | .predicate field op value => .ok (b.predicate field op value)
  | .range field low high => .ok (b.range field low high)
  | .allGroup calls =>
      match Builder.applyAll .empty calls with
      | .error f => .error f
      | .ok group => group.joinAll.map b.append
  | .anyGroup calls =>
      match Builder.applyAll .empty calls with
      | .error f => .error f
      | .ok group => group.joinAny.map b.append

def Builder.applyAll (b : Builder) : List Call → Outcome Builder
  | [] => .ok b
  | call :: rest =>
      match Builder.apply b call with
      | .error f => .error f
      | .ok next => Builder.applyAll next rest

end

end Retrieval.Filter
