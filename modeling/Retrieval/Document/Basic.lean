import Retrieval.Schema.Reader

/-!
# Documents

A document is what a loader fetched: bytes, where they come from and of what kind they are.
-/

namespace Retrieval

open Schema

structure Document where
  sourceUri : String
  content : List UInt8
  mimeType : String
  metadata : Option Fields
deriving Inhabited

namespace Document

def unknownMimeType : String := "application/octet-stream"

def read (fields : Fields) : Checked Document :=
  Document.mk <$> required "source_uri" Reader.text fields <*>
    required "content" Reader.bytes fields <*>
    optionalField "mime_type" unknownMimeType Reader.text fields <*>
    optionalField "metadata" none (Reader.optional Reader.metadata) fields

def toFields (d : Document) : Fields :=
  [("source_uri", .text d.sourceUri), ("content", .bytes d.content),
    ("mime_type", .text d.mimeType), ("metadata", .ofOption .map d.metadata)]

end Document

end Retrieval
