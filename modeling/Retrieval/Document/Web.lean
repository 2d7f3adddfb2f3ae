import Retrieval.Document.Loader
import Retrieval.Text.Blank
import Retrieval.Text.Search

/-!
# Documents on the web

The web loader fetches `http://` and `https://` addresses. The kind of a document is what the
content type says before its parameters.
-/

namespace Retrieval

namespace Web

structure Reply where
  status : Nat
  headers : List (String × String)
  body : List UInt8

inductive Failure
  | timeout (message : String)
  | broken (message : String)

/-- The values of a header, whatever the case of its name, joined by commas. -/
def Reply.header (r : Reply) (name : String) : String :=
  ", ".intercalate ((r.headers.filter fun h => Text.lower h.1 == name).map (·.2))

def Reply.mimeType (r : Reply) : String :=
  let kind := Text.trim ((r.header "content-type").toList.takeWhile (· != ';'))
  if kind.isEmpty then Document.unknownMimeType else Text.lower (String.ofList kind)

def Reply.isSuccess (r : Reply) : Bool := 200 ≤ r.status && r.status < 300

end Web

namespace Loader

variable {ω : Type}

def webName : String := "http-loader"

def supportsWeb (uri : String) : Bool := uri.startsWith "http://" || uri.startsWith "https://"

def webDocument (uri : String) : Except Web.Failure Web.Reply → Outcome Document
  | .ok reply =>
      if reply.isSuccess then .ok ⟨uri, reply.body, reply.mimeType, none⟩
      else .error (.fromProvider .documentLoad webName
        ("HTTP " ++ toString reply.status ++ " for " ++ uri))
  | .error (.timeout message) => .error (.fromProvider .documentLoad webName
      ("Timeout fetching " ++ uri ++ ": " ++ message))
  | .error (.broken message) => .error (.fromProvider .documentLoad webName
      ("HTTP error fetching " ++ uri ++ ": " ++ message))

def web (exchange : String → StateM ω (Except Web.Failure Web.Reply)) : Loader ω :=
  immediate supportsWeb fun uri w => let (r, w) := exchange uri w; (webDocument uri r, w)

end Loader

end Retrieval
