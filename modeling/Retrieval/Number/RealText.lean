import Retrieval.Number.Shortest

/-!
# How numbers are written

A double is written with its shortest digits: positionally with at least one place from 10⁻⁴ up to
10¹⁶, beyond with a signed exponent of at least two digits.
-/

namespace Retrieval.Number

structure RealFormat where
  /-- The point stands in front of digit `n` with `least ≤ n ≤ most` in positional form. -/
  least : Int
  most : Int
  exponentMark : String
  exponentWidth : Nat
  undefined : String
  infinite : String

def plain : RealFormat := ⟨-3, 16, "e", 2, "nan", "inf"⟩

def padLeft (width : Nat) (fill : Char) (text : String) : String :=
  String.ofList (List.replicate (width - text.length) fill) ++ text

def padZeros (width n : Nat) : String := padLeft width '0' (toString n)

namespace RealFormat

def exponent (f : RealFormat) (e : Int) : String :=
  f.exponentMark ++ (if e < 0 then "-" else "+") ++ padZeros f.exponentWidth e.natAbs

/-- The digits with the point in front of digit `point`. -/
def positional (digits : List Char) (point : Int) : String :=
  if point ≤ 0 then
    "0." ++ String.ofList (List.replicate (-point).toNat '0' ++ digits)
  else
    let whole := digits.take point.toNat
    let places := digits.drop point.toNat
    String.ofList (whole ++ List.replicate (point.toNat - whole.length) '0') ++ "." ++
      (if places.isEmpty then "0" else String.ofList places)

def scientific (f : RealFormat) (digits : List Char) (point : Int) : String :=
  match digits with
  | [] => ""
  | first :: rest =>
      String.ofList (if rest.isEmpty then [first] else first :: '.' :: rest) ++
        f.exponent (point - 1)

def render (f : RealFormat) (x : Float) : String :=
  match Binary.ofFloat? x with
  | none => if x.isNaN then f.undefined else if x < 0 then "-" ++ f.infinite else f.infinite
  | some b =>
      let sign := if b.negative then "-" else ""
      if b.mantissa = 0 then sign ++ "0.0"
      else
        let (digits, point) := (Reach.ofBinary b).shortest.normal
        sign ++ if f.least ≤ point ∧ point ≤ f.most then positional digits point
          else f.scientific digits point

end RealFormat

def realText (x : Float) : String := plain.render x

/-- A double with a fixed number of places, a half going to the even neighbour. -/
def fixedText (places : Nat) (x : Float) : String :=
  match Binary.ofFloat? x with
  | none => realText x
  | some b =>
      let unit := Nat.pow 10 places
      let size := { b with mantissa := b.mantissa * unit }.nearest.natAbs
      (if b.negative then "-" else "") ++ toString (size / unit) ++ "." ++
        padZeros places (size % unit)

end Retrieval.Number
