import Retrieval.Config.Layers
import Retrieval.Tenant.Registry
import Retrieval.Value.Print

/-!
# The roster of tenants

The configuration lists tenants, each a map with an id. The name is the id unless one is given, and
quotas are read if they are given as a map.
-/

namespace Retrieval.Config

open Schema

def quotasOf (id : Value) : Option Value → Outcome (Option Quotas)
  | some (.map fields) =>
      match Quotas.read fields with
      | .good q => .ok (some q)
      | .bad issues => do
          let name ← id.toText
          throw { kind := .configuration, message := "Invalid quotas for tenant '" ++ name ++ "'",
                  report := some ⟨"TenantQuotas", issues⟩ }
  | _ => .ok none

/-- Fails for an entry without an id. -/
def withoutId (entry : Value) : Outcome Tenant := do
  throw (.configuration ("Tenant entry needs an 'id': " ++ (← entry.toLiteral)))

def tenantOf (entry : Value) : Outcome Tenant :=
  match entry with
  | .map fields =>
      match Table.get? fields "id" with
      | some id => do
          let quotas ← quotasOf id (Table.get? fields "quotas")
          let name := match Table.get? fields "name" with
            | some name => if name.isTruthy then name else id
            | none => id
          Tenant.new (← id.toText) (← name.toText) quotas
      | none => withoutId entry
  | entry => withoutId entry

def tenants (config : Fields) : Outcome (List Tenant) :=
  match config.get? "tenants" with
  | none => .ok []
  | some (.list entries) => entries.mapM tenantOf
  | some value =>
      if value.isTruthy then .error (.configuration "'tenants' must be a list") else .ok []

end Retrieval.Config
