import Retrieval.Effect.Action
import Retrieval.Record

/-!
# Embedding

An embedder turns texts into vectors. Tenants are routed to the default embedder unless they have
one of their own.
-/

namespace Retrieval

structure Embedder (ω : Type) where
  name : String
  embed : List String → Action ω (List Embedding)

structure Routing (ω : Type) where
  standard : Embedder ω
  overrides : Table (Embedder ω)

namespace Routing

variable {ω : Type}

def select (r : Routing ω) (tenant : String) : Embedder ω :=
  (r.overrides.get? tenant).getD r.standard

def override (r : Routing ω) (tenant : String) (e : Embedder ω) : Routing ω :=
  { r with overrides := r.overrides.set tenant e }

end Routing

def miscounted (provider : String) (expected got : Nat) : Fault :=
  .fromProvider .embeddingContract provider
    ("Expected " ++ toString expected ++ " embeddings but got " ++ toString got)

end Retrieval
