import Retrieval.Number.Binary

/-!
# The shortest decimal of a double

Every real number between the middles of the gaps beside a double reads back as that double; the
middles themselves do when the mantissa is even. Of the decimal grids with one, two, … digits the
first that has a point in this interval is taken, and of its two points next to the value the
nearer, at a tie the even one.
-/

namespace Retrieval.Number

/-- `coefficient · 10 ^ exponent`. -/
structure Decimal where
  coefficient : Nat
  exponent : Int
deriving DecidableEq, Repr

def decimalLength (n : Nat) : Nat := (Nat.toDigits 10 n).length

/-- The interval that reads back as one positive value, over a common denominator. -/
structure Reach where
  low : Nat
  value : Nat
  high : Nat
  denominator : Nat
  closed : Bool
deriving Repr

namespace Reach

/-- The gap below a power of two is half as wide, unless the exponent is the least one. -/
def ofBinary (b : Binary) : Reach :=
  let below := if b.mantissa = Nat.pow 2 52 ∧ -1074 < b.exponent then 1 else 2
  let scale := (b.exponent - 2).toNat
  ⟨(4 * b.mantissa - below) <<< scale, (4 * b.mantissa) <<< scale, (4 * b.mantissa + 2) <<< scale,
    1 <<< (2 - b.exponent).toNat, b.mantissa % 2 = 0⟩

/-- The least power of ten above the value. -/
def magnitude (r : Reach) : Int :=
  let whole := r.value / r.denominator
  if 0 < whole then decimalLength whole
  else 1 - decimalLength ((r.denominator + r.value - 1) / r.value - 1)

/-- The point of the grid of step `10 ^ step` that stands for the value, if one reads back. -/
def onGrid? (r : Reach) (step : Int) : Option Decimal :=
  let up := Nat.pow 10 step.toNat * r.denominator
  let down := Nat.pow 10 (-step).toNat
  let hit (c : Nat) : Bool :=
    if r.closed then r.low * down ≤ c * up && c * up ≤ r.high * down
    else r.low * down < c * up && c * up < r.high * down
  let c := r.value * down / up
  let rest := r.value * down - c * up
  match hit c, hit (c + 1) with
  | false, false => none
  | true, false => some ⟨c, step⟩
  | false, true => some ⟨c + 1, step⟩
  | true, true =>
      if 2 * rest < up ∨ (2 * rest = up ∧ c % 2 = 0) then some ⟨c, step⟩ else some ⟨c + 1, step⟩

/-- Tries grids of `tried + 1`, `tried + 2`, … digits. -/
def search (r : Reach) (magnitude : Int) : (left tried : Nat) → Decimal
  | 0, _ => ⟨0, 0⟩
  | left + 1, tried =>
      match r.onGrid? (magnitude - (tried + 1)) with
      | some d => d
      | none => search r magnitude left (tried + 1)

def shortest (r : Reach) : Decimal := r.search r.magnitude 17 0

end Reach

/-- The digits of a decimal without the zeros at its end, and the power of ten in front of which the
point stands. -/
def Decimal.normal (d : Decimal) : List Char × Int :=
  let digits := Nat.toDigits 10 d.coefficient
  let kept := (digits.reverse.dropWhile (· == '0')).reverse
  (if kept.isEmpty then ['0'] else kept, digits.length + d.exponent)

end Retrieval.Number
