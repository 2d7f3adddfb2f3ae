import Retrieval.Chat.Basic
import Retrieval.Config.Settings
import Retrieval.Effect.Action
import Retrieval.Effect.Remote

/-!
# Chat by a remote service

A chat model completes requests. The remote one fills in what a request leaves open, and names the
model and the tokens of a reply if the service does not.
-/

namespace Retrieval

structure ChatModel (ω : Type) where
  name : String
  complete : ChatRequest → Action ω ChatReply

structure Completion where
  model : String
  messages : List Message
  temperature : Float
  maxTokens : Int

structure CompletionReply where
  content : Value
  model : Value
  tokens : Value

structure RemoteChat where
  model : String
  label : String
  hasKey : Bool
deriving DecidableEq, Repr

namespace RemoteChat

def ofSettings (s : Settings) : RemoteChat where
  model := if s.openaiChatModel.isEmpty then "gpt-4o-mini" else s.openaiChatModel
  label := if s.openaiBaseUrl.isEmpty then "openai" else "openai-compatible"
  hasKey := !s.openaiApiKey.isEmpty

def standardTemperature : Float := 0.3
def standardMaxTokens : Int := 1024

def completion (c : RemoteChat) (r : ChatRequest) : Completion where
  model := c.model
  messages := r.messages
  temperature := r.temperature.getD standardTemperature
  maxTokens := match r.maxTokens with
    | none | some 0 => standardMaxTokens
    | some n => n

def retrievalFault (c : RemoteChat) (message : String) : Fault :=
  .fromProvider .retrieval c.label (c.label ++ message)

/-- The fields of a reply; no tokens count as zero. -/
def replyFields (c : RemoteChat) (r : CompletionReply) : Fields :=
  [("content", r.content), ("model", if r.model.isTruthy then r.model else .text c.model),
    ("usage_tokens", if r.tokens.isNull then .int 0 else r.tokens)]

def readReply (c : RemoteChat) : Except Remote.Failure CompletionReply → Outcome ChatReply
  | .ok reply =>
      if reply.content.isNull then .error (c.retrievalFault " returned empty response")
      else (ChatReply.read (c.replyFields reply)).toOutcome "ChatResponse"
  | .error .timedOut => .error (c.retrievalFault " timed out after 25s")
  | .error failure => .error (failure.toFault c.label)

def chatModel {ω : Type} (c : RemoteChat) (call : Completion → Remote.Call ω CompletionReply) :
    ChatModel ω where
  name := c.label
  complete request w := let (reply, w) := call (c.completion request) w; (c.readReply reply, w)

end RemoteChat

end Retrieval
