import Retrieval.Schema.Reader

/-!
# Conversations

A request is a list of messages, each spoken in a role, with what the model is told about length and
temperature. A reply says how many tokens it cost, zero if that is not known.
-/

namespace Retrieval

open Schema

inductive Role
  | system
  | user
  | assistant
  | tool
deriving DecidableEq, Repr

namespace Role

def name : Role → String
  | .system => "system"
  | .user => "user"
  | .assistant => "assistant"
  | .tool => "tool"

def all : List Role := [.system, .user, .assistant, .tool]

def reader : Reader Role := Reader.choice (all.map fun r => (r.name, r))

end Role

structure Message where
  role : Role
  content : String
deriving DecidableEq, Repr

namespace Message

def read (fields : Fields) : Checked Message :=
  Message.mk <$> required "role" Role.reader fields <*> required "content" Reader.text fields

def toFields (m : Message) : Fields := [("role", .text m.role.name), ("content", .text m.content)]

end Message

structure ChatRequest where
  messages : List Message
  temperature : Option Float
  maxTokens : Option Int
  metadata : Option (Table String)

namespace ChatRequest

def read (fields : Fields) : Checked ChatRequest :=
  ChatRequest.mk <$>
    optionalField "messages" [] (Reader.list (Reader.record "Message" Message.read)) fields <*>
    optionalField "temperature" none (Reader.optional Reader.real) fields <*>
    optionalField "max_tokens" none (Reader.optional Reader.int) fields <*>
    optionalField "metadata" none (Reader.optional (Reader.map Reader.text)) fields

def toFields (r : ChatRequest) : Fields :=
  [("messages", .list (r.messages.map fun m => .map m.toFields)),
    ("temperature", .ofOption .real r.temperature), ("max_tokens", .ofOption .int r.maxTokens),
    ("metadata", .ofOption (fun t => .map (t.map fun (k, v) => (k, .text v))) r.metadata)]

def lastQuestion? (r : ChatRequest) : Option String :=
  (r.messages.reverse.find? (·.role == .user)).map (·.content)

end ChatRequest

structure ChatReply where
  content : String
  model : String
  usageTokens : Int
deriving DecidableEq, Repr

namespace ChatReply

def read (fields : Fields) : Checked ChatReply :=
  ChatReply.mk <$> required "content" Reader.text fields <*>
    optionalField "model" "" Reader.text fields <*>
    optionalField "usage_tokens" 0 Reader.int fields

def toFields (r : ChatReply) : Fields :=
  [("content", .text r.content), ("model", .text r.model), ("usage_tokens", .int r.usageTokens)]

end ChatReply

end Retrieval
