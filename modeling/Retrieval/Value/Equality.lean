import Retrieval.Number.Binary
import Retrieval.Value.Basic

/-!
# Equality of values

Numbers are equal when their exact values are, truth values counting as one and zero; maps when they
have the same names with equal values in any order. Moments of one region are equal when their local
times are. Others are equal when they name one instant, both or neither have an offset, and neither
has an offset that depends on how its local time is read.
-/

namespace Retrieval

open Number Time

namespace Time.Moment

def region? (m : Moment) : Option String := m.zone.bind fun zone => zone.region.map (·.name)

def sharesRegion (a b : Moment) : Bool := a.region?.isSome && a.region? == b.region?

/-- The two readings of the local time have different offsets. -/
def isDoubtful (m : Moment) : Bool :=
  m.zone.any fun zone => zone.region.any (·.other != zone.offset)

def equals (a b : Moment) : Bool :=
  if a.sharesRegion b then a.micros == b.micros
  else !a.isDoubtful && !b.isDoubtful && a.instant == b.instant

def same (a b : Moment) : Bool := a.zone.isSome == b.zone.isSome && a.equals b

end Time.Moment

namespace Value

def number? : Value → Option Extended
  | .bool b => some (.ofInt (if b then 1 else 0))
  | .int n => some (.ofInt n)
  | .real x => some (.ofFloat x)
  | _ => none

mutual

def same : Value → Value → Bool
  | .list a, .list b => sameItems a b
  | .map a, .map b => a.length == b.length && sameEntries a b
  | .null, .null => true
  | .text a, .text b => a == b
  | .bytes a, .bytes b => a == b
  | .moment a, .moment b => a.same b
  | a, b =>
      match a.number?, b.number? with
      | some x, some y => x.compare? y == some .eq
      | _, _ => false

def sameItems : List Value → List Value → Bool
  | [], [] => true
  | a :: as, b :: bs => a.same b && sameItems as bs
  | _, _ => false

def sameEntries : List (String × Value) → Fields → Bool
  | [], _ => true
  | (name, a) :: rest, others =>
      (match others.get? name with
        | some b => a.same b
        | none => false) && sameEntries rest others

end

@[simp] theorem same_text (a b : String) : same (.text a) (.text b) = (a == b) := by simp [same]

theorem same_int (a b : Int) : same (.int a) (.int b) = (a == b) := by
  simp only [same, number?, Extended.compare?_ofInt]
  rcases Int.lt_trichotomy a b with h | h | h
  · have : a ≠ b := by omega
    simp [h, this]
  · simp [h]
  · have h1 : ¬a < b := by omega
    have h2 : a ≠ b := by omega
    simp [h1, h2]

end Value

end Retrieval
