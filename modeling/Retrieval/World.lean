import Retrieval.Effect.Action
import Retrieval.Tenant.Ledger

/-!
# The world of the library

The library's own state beside the world outside: the registered tenants, their usage, and the
serial numbers of the next chunk and the next version.
-/

namespace Retrieval

structure World (σ : Type) where
  outside : σ
  registry : Registry
  ledger : Ledger
  chunkSerial : Nat
  versionSerial : Nat
deriving Inhabited

namespace World

variable {σ α : Type}

def new (outside : σ) (registry : Registry) : World σ := ⟨outside, registry, [], 0, 0⟩

def withOutside (outside : σ) (w : World σ) : World σ := { w with outside }

def onOutside (a : Action σ α) : Action (World σ) α := a.within World.outside withOutside

end World

end Retrieval
