import Retrieval.Text.Host
import Retrieval.Text.Utf8

/-!
# Addresses

The path of a `scheme://host/path?query#fragment` address, and the texts behind its percent signs.
-/

namespace Retrieval.Text.Url

def hexValue (c : Char) : Nat :=
  if c.isDigit then c.toNat - 48 else if c.isUpper then c.toNat - 55 else c.toNat - 87

/-- Puts the characters behind percent signs in their place. Runs of plain and escaped ASCII are
read together as bytes of a text; bytes that are no text are replaced. -/
def unescapeFrom (held : Option Utf8.Pending) : List Char → List Char
  | [] => Utf8.flush held
  | '%' :: a :: b :: rest =>
      if Host.isHex a && Host.isHex b then
        let (out, held) := Utf8.absorb held (hexValue a * 16 + hexValue b)
        out ++ unescapeFrom held rest
      else Utf8.flush held ++ '%' :: unescapeFrom none (a :: b :: rest)
  | c :: rest => Utf8.flush held ++ c :: unescapeFrom none rest

def unescape (text : List Char) : List Char := unescapeFrom none text

def endsHost (c : Char) : Bool := c == '/' || c == '?' || c == '#'

/-- The path of an address whose text begins behind the scheme and its colon, unless something is
wrong with its host. -/
def path (afterScheme : List Char) : Except Host.Defect (List Char) :=
  let body := afterScheme.filter fun c => !(c == '\t' || c == '\r' || c == '\n')
  let (host, rest) := if ['/', '/'].isPrefixOf body
    then (body.drop 2).span (!endsHost ·) else ([], body)
  match Host.defect? host with
  | some defect => .error defect
  | none => .ok (rest.takeWhile fun c => !(c == '?' || c == '#'))

end Retrieval.Text.Url
