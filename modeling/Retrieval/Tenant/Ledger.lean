import Retrieval.Tenant.Registry

/-!
# The usage ledger

Usage by tenant id. Tenants that are not registered are always denied, and tenants without quotas
never. Checks answer yes or no; records count what happened and check nothing.
-/

namespace Retrieval

abbrev Ledger := Table Usage

namespace Ledger

def usage (l : Ledger) (tenant : String) : Usage := (l.get? tenant).getD .zero

def canIngest (l : Ledger) (registry : Registry) (tenant : String) : Bool :=
  match registry.get? tenant with
  | none => false
  | some t => t.quotas.all fun q => q.admitsDocument (l.usage tenant)

/-- Whether a request of some tokens is allowed today. The answer comes with the ledger in which the
requests of an earlier day no longer count, as far as they were looked at. -/
def canAsk (l : Ledger) (registry : Registry) (tenant : String) (today : Nat) (tokens : Int) :
    Bool × Ledger :=
  match registry.get? tenant with
  | none => (false, l)
  | some t =>
      match t.quotas with
      | none => (true, l)
      | some q =>
          if q.admitsTokens tokens then
            let u := (l.usage tenant).onDay today
            (q.admitsRequest u, l.set tenant u)
          else (false, l)

def recordDocument (l : Ledger) (tenant : String) (bytes : Int) : Ledger :=
  l.set tenant ((l.usage tenant).addDocument bytes)

/-- The day may change between the two looks at the clock. -/
def recordRequest (l : Ledger) (tenant : String) (seen : Nat) (tokens : Int)
    (dated : Nat := seen) : Ledger :=
  l.set tenant ((l.usage tenant).addRequest seen dated tokens)

theorem usage_set (l : Ledger) (tenant : String) (u : Usage) (other : String) :
    Ledger.usage (l.set tenant u) other = if tenant = other then u else l.usage other := by
  unfold usage
  rw [Table.get?_set]
  split <;> rfl

theorem usage_recordDocument_of_ne {tenant other : String} (h : tenant ≠ other) (l : Ledger)
    (bytes : Int) : (l.recordDocument tenant bytes).usage other = l.usage other := by
  rw [recordDocument, usage_set, if_neg h]

theorem usage_recordRequest_of_ne {tenant other : String} (h : tenant ≠ other) (l : Ledger)
    (seen dated : Nat) (tokens : Int) :
    (l.recordRequest tenant seen tokens dated).usage other = l.usage other := by
  rw [recordRequest, usage_set, if_neg h]

end Ledger

end Retrieval
