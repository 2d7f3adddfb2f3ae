import Retrieval.Text.Quoted

/-!
# Texts as bytes

Bytes are read as UTF-8 one at a time: a lead byte promises how many bytes follow and which values
the first of them may take, which rules out overlong forms, surrogates and codes past the last
one. The strict reading stops at the first byte that breaks a promise and says which bytes are at
fault; the lenient reading puts a replacement character in their place.
-/

namespace Retrieval.Text.Utf8

/-- A character under way: how many bytes are still owed, the bounds of the next one, the bits read
so far and how many bytes they came from. -/
structure Pending where
  owed : Nat
  low : Nat
  high : Nat
  bits : Nat
  taken : Nat
deriving DecidableEq, Repr

inductive Reading
  | char (c : Char)
  | pending (p : Pending)
  | refused

def lead (byte : Nat) : Reading :=
  if byte < 0x80 then .char (Char.ofNat byte)
  else if byte < 0xC2 then .refused
  else if byte < 0xE0 then .pending ⟨1, 0x80, 0xBF, byte - 0xC0, 1⟩
  else if byte < 0xF0 then
    .pending ⟨2, if byte = 0xE0 then 0xA0 else 0x80, if byte = 0xED then 0x9F else 0xBF,
      byte - 0xE0, 1⟩
  else if byte < 0xF5 then
    .pending ⟨3, if byte = 0xF0 then 0x90 else 0x80, if byte = 0xF4 then 0x8F else 0xBF,
      byte - 0xF0, 1⟩
  else .refused

def Pending.next (p : Pending) (byte : Nat) : Reading :=
  if byte < p.low || p.high < byte then .refused
  else
    let bits := p.bits * 64 + (byte - 0x80)
    if p.owed ≤ 1 then .char (Char.ofNat bits)
    else .pending ⟨p.owed - 1, 0x80, 0xBF, bits, p.taken + 1⟩

inductive Reason
  | badLead
  | badNext
  | cutShort
deriving DecidableEq, Repr

/-- The bytes at which a strict reading stopped. -/
structure Defect where
  reason : Reason
  position : Nat
  length : Nat
  firstByte : Nat
deriving DecidableEq, Repr

def Reason.text : Reason → String
  | .badLead => "invalid start byte"
  | .badNext => "invalid continuation byte"
  | .cutShort => "unexpected end of data"

def Defect.text (d : Defect) : String :=
  "'utf-8' codec can't decode " ++
    (if d.length = 1 then
      "byte 0x" ++ String.ofList (hexDigits 2 d.firstByte) ++ " in position " ++ toString d.position
    else "bytes in position " ++ toString d.position ++ "-" ++ toString (d.position + d.length - 1))
    ++ ": " ++ d.reason.text

/-- Reads bytes from `position` on, with the character under way and its first byte. -/
def decodeFrom (position : Nat) (held : Option (Nat × Pending)) :
    List UInt8 → Except Defect (List Char)
  | [] =>
      match held with
      | none => .ok []
      | some (first, p) => .error ⟨.cutShort, position - p.taken, p.taken, first⟩
  | byte :: rest =>
      match held with
      | none =>
          match lead byte.toNat with
          | .char c => (decodeFrom (position + 1) none rest).map (c :: ·)
          | .pending p => decodeFrom (position + 1) (some (byte.toNat, p)) rest
          | .refused => .error ⟨.badLead, position, 1, byte.toNat⟩
      | some (first, p) =>
          match p.next byte.toNat with
          | .char c => (decodeFrom (position + 1) none rest).map (c :: ·)
          | .pending p => decodeFrom (position + 1) (some (first, p)) rest
          | .refused => .error ⟨.badNext, position - p.taken, p.taken, first⟩

def decode (bytes : List UInt8) : Except Defect (List Char) := decodeFrom 0 none bytes

def byteOrderMark : List UInt8 := [0xEF, 0xBB, 0xBF]

/-- Reads bytes behind the byte order mark if they start with one. -/
def decodeMarked (bytes : List UInt8) : Except Defect (List Char) :=
  if byteOrderMark.isPrefixOf bytes then decode (bytes.drop 3) else decode bytes

def replacement : Char := '\uFFFD'

def flush (held : Option Pending) : List Char := if held.isSome then [replacement] else []

def absorbLead (byte : Nat) : List Char × Option Pending :=
  match lead byte with
  | .char c => ([c], none)
  | .pending p => ([], some p)
  | .refused => ([replacement], none)

/-- Takes one byte leniently: a byte that breaks a promise ends the character under way and starts
afresh. -/
def absorb (held : Option Pending) (byte : Nat) : List Char × Option Pending :=
  match held with
  | none => absorbLead byte
  | some p =>
      match p.next byte with
      | .char c => ([c], none)
      | .pending p => ([], some p)
      | .refused => let (out, held) := absorbLead byte; (replacement :: out, held)

end Retrieval.Text.Utf8
