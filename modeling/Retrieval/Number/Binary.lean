/-!
# The exact value of a double

A finite double is a whole mantissa times a power of two. Whole numbers and doubles are compared by
their exact values, so no comparison rounds; a number that is not a number compares with nothing.
-/

namespace Retrieval.Number

/-- `mantissa · 2 ^ exponent`, with a sign that zero also has. -/
structure Binary where
  negative : Bool
  mantissa : Nat
  exponent : Int
deriving DecidableEq, Repr

namespace Binary

/-- The parts of a double of 64 bits: eleven of exponent, fifty-two of mantissa. -/
def ofBits? (bits : Nat) : Option Binary :=
  let negative := Nat.pow 2 63 ≤ bits
  let scale : Nat := bits / Nat.pow 2 52 % 2048
  let fraction := bits % Nat.pow 2 52
  if scale = 2047 then none
  else if scale = 0 then some ⟨negative, fraction, -1074⟩
  else some ⟨negative, fraction + Nat.pow 2 52, (scale : Int) - 1075⟩

def ofFloat? (x : Float) : Option Binary := ofBits? x.toBits.toNat

def value (b : Binary) : Rat :=
  let size : Rat :=
    match b.exponent with
    | .ofNat e => (b.mantissa * Nat.pow 2 e : Nat)
    | .negSucc e => mkRat b.mantissa (Nat.pow 2 (e + 1))
  if b.negative then -size else size

/-- The whole number next to the value in the direction of zero. -/
def truncate (b : Binary) : Int :=
  let size : Nat :=
    match b.exponent with
    | .ofNat e => b.mantissa * Nat.pow 2 e
    | .negSucc e => b.mantissa / Nat.pow 2 (e + 1)
  if b.negative then -size else size

/-- The whole number nearest to the value, halves going to the even one. -/
def nearest (b : Binary) : Int :=
  let size : Nat :=
    match b.exponent with
    | .ofNat e => b.mantissa * Nat.pow 2 e
    | .negSucc e =>
        let whole := b.mantissa / Nat.pow 2 (e + 1)
        let unit := Nat.pow 2 (e + 1)
        let rest := b.mantissa % unit
        if unit < 2 * rest ∨ (2 * rest = unit ∧ whole % 2 = 1) then whole + 1 else whole
  if b.negative then -size else size

def isWhole (b : Binary) : Bool :=
  match b.exponent with
  | .ofNat _ => true
  | .negSucc e => b.mantissa % Nat.pow 2 (e + 1) = 0

end Binary

inductive Extended
  | undefined
  | infinite (negative : Bool)
  | finite (value : Rat)
deriving DecidableEq, Repr

namespace Extended

def ofFloat (x : Float) : Extended :=
  match Binary.ofFloat? x with
  | some b => .finite b.value
  | none => if x.isNaN then .undefined else .infinite (x < 0)

def ofInt (n : Int) : Extended := .finite n

def compare? : Extended → Extended → Option Ordering
  | .undefined, _ => none
  | _, .undefined => none
  | .infinite a, .infinite b => some (if a = b then .eq else if a then .lt else .gt)
  | .infinite a, .finite _ => some (if a then .lt else .gt)
  | .finite _, .infinite b => some (if b then .gt else .lt)
  | .finite a, .finite b => some (if a < b then .lt else if a = b then .eq else .gt)

@[simp] theorem compare?_self_finite (a : Rat) : compare? (.finite a) (.finite a) = some .eq := by
  simp [compare?]

theorem compare?_ofInt (a b : Int) :
    compare? (ofInt a) (ofInt b) = some (if a < b then .lt else if a = b then .eq else .gt) := by
  simp only [compare?, ofInt, Rat.intCast_lt_intCast, Rat.intCast_inj]

end Extended

end Retrieval.Number
