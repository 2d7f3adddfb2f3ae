import Retrieval.Tenant.Id
import Retrieval.Tenant.Quota

/-!
# Registered tenants

Tenants by id, in the order of their registration. A tenant without quotas is not limited.
-/

namespace Retrieval

open Schema

structure Tenant where
  id : String
  name : String
  quotas : Option Quotas
deriving DecidableEq, Repr

namespace Tenant

def new (id name : String) (quotas : Option Quotas) : Outcome Tenant :=
  (checkId (some id)).map fun id => ⟨id, name, quotas⟩

def readId (id : Value) : Outcome (Checked String) :=
  match Reader.text id with
  | .good id => (checkId (some id)).map .good
  | .bad issues => .ok (.bad issues)

/-- A tenant from values; an id that is not valid is told before anything about the name. -/
def ofValues (id name : Value) (quotas : Option Quotas) : Outcome Tenant := do
  let id := (← readId id).under (.field "tenant_id")
  let name := (Reader.text name).under (.field "name")
  (Checked.ap (id.map fun id name => (⟨id, name, quotas⟩ : Tenant)) name).toOutcome "TenantInfo"

def standardQuotas : Quotas :=
  ⟨some 10000, some (10 * 1024 * 1024 * 1024), some 100000, some 100000⟩

def standard : Tenant := ⟨"default", "Default Tenant", some standardQuotas⟩

def toFields (t : Tenant) : Fields :=
  [("tenant_id", .text t.id), ("name", .text t.name),
    ("quotas", .ofOption (fun q => .map q.toFields) t.quotas)]

end Tenant

abbrev Registry := Table Tenant

namespace Registry

def register (r : Registry) (t : Tenant) : Registry := r.set t.id t

/-- The standard tenant, if it is seeded, and then the others in order. -/
def new (seeded : Bool) (tenants : List Tenant) : Registry :=
  tenants.foldl register (if seeded then register [] Tenant.standard else [])

def replace (r : Registry) (t : Tenant) : Outcome Registry :=
  if r.has t.id then .ok (r.register t) else .error (.missingKey t.id)

end Registry

end Retrieval
