import Retrieval.Filter.Basic

/-!
# Where clauses

A record store of its own may evaluate a part of a filter itself: equality with scalars and
comparison with numbers, joined by "and" and "or". What is pushed down to such a store selects at
least the records that the filter accepts, and it is known whether it selects no others.
-/

namespace Retrieval

inductive Where
  | leaf (field : String) (op : Operator) (value : Value)
  | all (clauses : List Where)
  | any (clauses : List Where)

namespace Where

mutual

/-- What a store that reads leaves as predicates selects. -/
def selects : Where → Fields → Bool
  | .leaf field op value, fields => (Predicate.mk field op value).holds fields
  | .all clauses, fields => selectsAll clauses fields
  | .any clauses, fields => selectsAny clauses fields

def selectsAll : List Where → Fields → Bool
  | [], _ => true
  | clause :: rest, fields => selects clause fields && selectsAll rest fields

def selectsAny : List Where → Fields → Bool
  | [], _ => false
  | clause :: rest, fields => selects clause fields || selectsAny rest fields

end

mutual

def toValue : Where → Value
  | .leaf field op value => .map [(field, .map [("$" ++ op.name, value)])]
  | .all clauses => .map [("$and", .list (toValues clauses))]
  | .any clauses => .map [("$or", .list (toValues clauses))]

def toValues : List Where → List Value
  | [] => []
  | clause :: rest => toValue clause :: toValues rest

end

end Where

/-- A clause, none selecting everything, and whether it selects just what the filter accepts. -/
structure Pushdown where
  clause : Option Where
  exact : Bool

namespace Pushdown

def unconstrained : Pushdown := ⟨none, false⟩

def isNumber : Value → Bool
  | .int _ | .real _ => true
  | _ => false

def isPlain : Value → Bool
  | .text _ | .int _ | .real _ | .bool _ => true
  | _ => false

def ofPredicate (p : Predicate) : Pushdown :=
  match p.op with
  | .eq => if isPlain p.value then ⟨some (.leaf p.field .eq p.value), true⟩ else unconstrained
  | .gt | .gte | .lt | .lte =>
      if isNumber p.value then ⟨some (.leaf p.field p.op p.value), true⟩ else unconstrained
  | .ne | .contains => unconstrained

/-- A group of one clause is that clause. -/
def group (disjoint : Bool) : List Where → Where
  | [clause] => clause
  | clauses => if disjoint then .any clauses else .all clauses

/-- Joins what is pushed down for the members of a group. A disjunction with an unconstrained member
lets everything through. -/
def join (disjoint : Bool) (parts : List Pushdown) : Pushdown :=
  if parts.isEmpty then unconstrained
  else
    let clauses := parts.filterMap (·.clause)
    if disjoint && clauses.length < parts.length then unconstrained
    else if clauses.isEmpty then ⟨none, parts.all (·.exact)⟩
    else ⟨some (group disjoint clauses), parts.all (·.exact)⟩

end Pushdown

namespace Filter

mutual

/-- Pushes a filter down, or its negation: a negation goes to the leaves, where it leaves nothing
to select by. -/
def pushDown (negated : Bool) : Filter → Outcome Pushdown
  | .pred p => .ok (if negated then .unconstrained else .ofPredicate p)
  | .not filter => pushDown (!negated) filter
  | .all filters => (pushDownAll negated filters).map (.join negated)
  | .any filters => (pushDownAll negated filters).map (.join (!negated))
  | .absent => .error (unsupported .null)
  | .foreign value => .error (unsupported value)

def pushDownAll (negated : Bool) : List Filter → Outcome (List Pushdown)
  | [] => .ok []
  | filter :: rest =>
      match pushDown negated filter with
      | .error f => .error f
      | .ok part => (pushDownAll negated rest).map (part :: ·)

end

end Filter

end Retrieval
