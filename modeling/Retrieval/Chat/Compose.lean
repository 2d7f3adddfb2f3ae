import Retrieval.Chat.Basic
import Retrieval.Search.Basic

/-!
# Grounding a conversation

Sources are numbered and put in front of a conversation, in its leading system message if it has
one and in a new one otherwise. Without sources a conversation stays as it is.
-/

namespace Retrieval

def contextHeader : String :=
  "Use the following context to answer the question. Cite sources when possible."

def blockSeparator : String := "\n\n"

/-- A name and what it names, unless that is missing or empty. -/
def labelled (label : String) : Option String → List String
  | some s => if s.isEmpty then [] else [label ++ ": " ++ s]
  | none => []

def Source.render (s : Source) (number : Int) : String :=
  let parts := labelled "Document" s.docId ++ labelled "URI" s.sourceUri
  "Source " ++ toString number ++
    (if parts.isEmpty then "" else " (" ++ ", ".intercalate parts ++ ")") ++ ": " ++ s.chunk.text

def renderSources : (number : Int) → List Source → List String
  | _, [] => []
  | number, s :: rest => s.render number :: renderSources (number + 1) rest

def contextOf (sources : List Source) : String :=
  blockSeparator.intercalate (contextHeader :: renderSources 1 sources)

def groundMessages (context : String) : List Message → List Message
  | ⟨.system, content⟩ :: rest => ⟨.system, context ++ blockSeparator ++ content⟩ :: rest
  | messages => ⟨.system, context⟩ :: messages

namespace ChatRequest

def ground (r : ChatRequest) (sources : List Source) : ChatRequest :=
  if sources.isEmpty then r
  else { r with messages := groundMessages (contextOf sources) r.messages }

/-- Four characters count as one token. -/
def estimateTokens (r : ChatRequest) : Nat := r.messages.foldl (fun n m => n + m.content.length) 0 / 4

@[simp] theorem ground_nil (r : ChatRequest) : r.ground [] = r := rfl

end ChatRequest

end Retrieval
