import Retrieval.Document.Basic
import Retrieval.Passage.Chunk

/-!
# Enriching chunks

A chunk takes over what is known of its document. Where it comes from, its kind and when it is
indexed always describe the document; a title is taken over if there is one; anything else only if
the chunk does not say it already.
-/

namespace Retrieval

open Time

namespace Chunk

/-- The metadata with the document's own under the names not yet taken. -/
def inherit (fields : Fields) (others : List (String × Value)) : Fields :=
  others.foldl (fun acc entry => acc.setDefault entry.1 entry.2) fields

def provenance (fields : Fields) (d : Document) (indexedAt : String) : Fields :=
  ((fields.set Key.sourceUri (.text d.sourceUri)).set Key.mimeType (.text d.mimeType)).set
    Key.indexedAt (.text indexedAt)

def withTitle (fields : Fields) (title : Option Value) : Fields :=
  match title with
  | none | some .null => fields
  | some value => fields.set Key.title value

def enrichedFields (c : Chunk) (d : Document) (indexedAt : String) : Fields :=
  let known := d.metadata.getD []
  withTitle (provenance (inherit (c.metadata.getD []) known) d indexedAt) (known.get? Key.title)

def enrich (c : Chunk) (d : Document) (now : Moment) : Outcome Chunk :=
  now.stored.map fun indexedAt => { c with metadata := some (c.enrichedFields d indexedAt) }

end Chunk

end Retrieval
