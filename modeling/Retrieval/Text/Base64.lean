/-!
# Bytes in base 64

Three bytes make four letters of six bits each; a last group that is short is padded.
-/

namespace Retrieval.Text.Base64

def letter (n : Nat) : Char :=
  if n < 26 then Char.ofNat (65 + n) else if n < 52 then Char.ofNat (71 + n)
  else if n < 62 then Char.ofNat (n - 4) else if n = 62 then '+' else '/'

def sextet (c : Char) : Nat :=
  if c.isUpper then c.toNat - 65 else if c.isLower then c.toNat - 71
  else if c.isDigit then c.toNat + 4 else if c == '+' then 62 else if c == '/' then 63 else 0

def group (a b c : UInt8) : List Char :=
  let n := (a.toNat * 256 + b.toNat) * 256 + c.toNat
  [n / 262144, n / 4096 % 64, n / 64 % 64, n % 64].map letter

def encode : List UInt8 → List Char
  | [] => []
  | [a] => (group a 0 0).take 2 ++ ['=', '=']
  | [a, b] => (group a b 0).take 3 ++ ['=']
  | a :: b :: c :: rest => group a b c ++ encode rest

/-- The bytes of four letters, of which the last ones may be padding. -/
def ungroup (a b c d : Char) : List UInt8 :=
  let n := [a, b, c, d].foldl (fun n x => n * 64 + sextet x) 0
  [(n / 65536).toUInt8, (n / 256).toUInt8, n.toUInt8].take
    (if c == '=' then 1 else if d == '=' then 2 else 3)

def decode : List Char → List UInt8
  | a :: b :: c :: d :: rest => ungroup a b c d ++ decode rest
  | _ => []

end Retrieval.Text.Base64
