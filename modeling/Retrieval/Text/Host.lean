import Retrieval.Text.Quoted
import Retrieval.Text.Search

/-!
# Hosts

The part of an address between its two slashes and its path may name a host by an address in
brackets. Such an address has up to eight groups of hexadecimal digits, of which a run of zeros may
be left out and the last two may be written as four numbers, or it is of a later form that names its
version. Outside brackets no character may stand for one that ends a host.
-/

namespace Retrieval.Text.Host

def isHex (c : Char) : Bool :=
  c.isDigit || ('a' ≤ c && c ≤ 'f') || ('A' ≤ c && c ≤ 'F')

inductive Defect
  | unbalanced
  | badVersion
  | noAddress (host : List Char)
  | fourNumbers
  | disguised (host : List Char)
deriving DecidableEq, Repr

def Defect.text : Defect → String
  | .unbalanced => "Invalid IPv6 URL"
  | .badVersion => "IPvFuture address is invalid"
  | .noAddress host => String.ofList (quoted host) ++
      " does not appear to be an IPv4 or IPv6 address"
  | .fourNumbers => "An IPv4 address cannot be in brackets"
  | .disguised host => "netloc '" ++ String.ofList host ++
      "' contains invalid characters under NFKC normalization"

/-- A number up to 255 without leading zeros. -/
def isOctet (text : List Char) : Bool :=
  !text.isEmpty && text.all Char.isDigit && text.length ≤ 3 &&
    (text == ['0'] || text.head? != some '0') &&
    text.foldl (fun n c => 10 * n + (c.toNat - 48)) 0 ≤ 255

def isFourNumbers (text : List Char) : Bool :=
  let octets := splitAt '.' text
  octets.length = 4 && octets.all isOctet

def isGroup (text : List Char) : Bool := !text.isEmpty && text.length ≤ 4 && text.all isHex

/-- The groups of an address, four numbers at the end counting as two. -/
def groups? (text : List Char) : Option (List (List Char)) :=
  let groups := splitAt ':' text
  let last := groups.getLast?.getD []
  if !last.contains '.' then some groups
  else if isFourNumbers last then some (groups.dropLast ++ [['0'], ['0']])
  else none

/-- Groups on one side of those left out. The outermost may be empty if there is no other. -/
def isSide (groups : List (List Char)) : Bool := groups == [[]] || groups.all isGroup

/-- Eight groups, or fewer with one place between them where at least one is left out. -/
def isGroups (groups : List (List Char)) : Bool :=
  match groups.tail.dropLast.findIdx? (·.isEmpty) with
  | none => groups.length = 8 && groups.all isGroup
  | some n =>
      let before := groups.take (n + 1)
      let after := groups.drop (n + 2)
      isSide before && isSide after &&
        ((before ++ after).filter (!·.isEmpty)).length < 8

def isManyGroups (text : List Char) : Bool :=
  let (address, zone) := text.span (· != '%')
  (zone.isEmpty || (1 < zone.length && !(zone.drop 1).contains '%')) &&
    2 < (splitAt ':' address).length && (groups? address).any isGroups

/-- An address of a later form: the letter v, a version, a dot and more. -/
def isVersioned (text : List Char) : Bool :=
  let version := (text.drop 1).takeWhile isHex
  match (text.drop 1).dropWhile isHex with
  | '.' :: _ :: _ => !version.isEmpty
  | _ => false

def addressDefect? (host : List Char) : Option Defect :=
  if host.head? = some 'v' then if isVersioned host then none else some .badVersion
  else if isFourNumbers host then some .fourNumbers
  else if isManyGroups host then none
  else some (.noAddress host)

/-- Characters that stand for a slash, a question mark, a number sign, an at sign or a colon. -/
def disguises : List Nat :=
  [0x2047, 0x2048, 0x2049, 0x2100, 0x2101, 0x2105, 0x2106, 0x2A74, 0xFE13, 0xFE16, 0xFE55, 0xFE56,
    0xFE5F, 0xFE6B, 0xFF03, 0xFF0F, 0xFF1A, 0xFF1F, 0xFF20]

def defect? (host : List Char) : Option Defect :=
  let disguise := if host.any fun c => disguises.contains c.toNat then some (Defect.disguised host)
    else none
  match cutAt '[' host with
  | none => if host.contains ']' then some .unbalanced else disguise
  | some (_, rest) =>
      if !host.contains ']' then some .unbalanced
      else (addressDefect? (rest.takeWhile (· != ']'))).or disguise

end Retrieval.Text.Host
