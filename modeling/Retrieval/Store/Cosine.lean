import Retrieval.Record

/-!
# Cosine similarity

The similarity of two vectors of one length lies between zero and one; vectors of different lengths,
and those without length, are not similar. Sums run from the left.
-/

namespace Retrieval

def dotProduct (a b : Embedding) : Float := (List.zipWith (· * ·) a b).foldl (· + ·) 0

def norm (a : Embedding) : Float := (dotProduct a a).sqrt

/-- A number cut to the interval from zero to one. What cannot be compared becomes one. -/
def clampUnit (x : Float) : Float :=
  let capped := if x < 1 then x else 1
  if 0 < capped then capped else 0

def cosineSimilarity (a b : Embedding) : Float :=
  if a.length ≠ b.length ∨ a.isEmpty then 0
  else
    let size := norm a * norm b
    if size == 0 then 0 else clampUnit (dotProduct a b / size)

end Retrieval
