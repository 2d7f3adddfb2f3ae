import Retrieval.Filter.Basic
import Retrieval.Value.Tagged

/-!
# Filters as values

The form in which filters are written down: a map with one entry that says what the filter is. A
value of any other form stands for itself.
-/

namespace Retrieval.Filter

mutual

/-- Reads a filter; operators must be known. -/
def ofForm : Value → Outcome Filter
  | .null => .ok .absent
  | .map [("pred", .list [.text field, .text op, value])] =>
      (Operator.ofName op).map fun op => .pred ⟨field, op, value.untagged⟩
  | .map [("and", .list forms)] => (ofForms forms).map .all
  | .map [("or", .list forms)] => (ofForms forms).map .any
  | .map [("not", form)] => (ofForm form).map .not
  | value => .ok (.foreign value.untagged)

def ofForms : List Value → Outcome (List Filter)
  | [] => .ok []
  | form :: rest => do
      let filter ← ofForm form
      let filters ← ofForms rest
      return filter :: filters

end

mutual

def toForm : Filter → Value
  | .pred p => .map [("pred", .list [.text p.field, .text p.op.name, p.value.tagged])]
  | .all filters => .map [("and", .list (toForms filters))]
  | .any filters => .map [("or", .list (toForms filters))]
  | .not filter => .map [("not", toForm filter)]
  | .absent => .null
  | .foreign value => value.tagged

def toForms : List Filter → List Value
  | [] => []
  | filter :: rest => toForm filter :: toForms rest

end

end Retrieval.Filter
