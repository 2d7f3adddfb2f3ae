import Retrieval.Chat.Compose
import Retrieval.Chat.Remote
import Retrieval.Search.Retriever
import Retrieval.World

/-!
# Answering with sources

A conversation is grounded in the sources found for a question and completed by the chat model.
Where quotas are in force, they are checked first, and only an answer is counted.
-/

namespace Retrieval

open Time

structure ChatService (σ : Type) where
  retriever : Retriever σ
  model : ChatModel σ
  /-- Tenants are held to their quotas. -/
  limited : Bool
  now : σ → Moment
  /-- What passes between two looks at the clock that follow one another. -/
  lapse : σ → σ

/-- A conversation to be continued for a tenant. -/
structure Inquiry where
  request : ChatRequest
  tenant : String
  /-- What to search for, if it is not the last question. -/
  query : Option String
  topK : Int
  filter : Option Filter

namespace Inquiry

/-- What is searched for; it must not be empty. -/
def question (q : Inquiry) : Outcome String :=
  match given (q.query.or q.request.lastQuestion?) with
  | some text => .ok text
  | none => .error (.badValue "No query given and the request has no user message")

def search (q : Inquiry) (question : String) : Search :=
  ⟨question, q.tenant, q.topK, q.filter, none⟩

end Inquiry

/-- The tokens an answer cost: those of the reply, or else an estimate. -/
def ChatReply.cost (r : ChatReply) (sent : ChatRequest) : Int :=
  if r.usageTokens = 0 then sent.estimateTokens else r.usageTokens

namespace ChatService

variable {σ : Type}

def allow (s : ChatService σ) (q : Inquiry) : Action (World σ) Unit := fun w =>
  if s.limited then
    let (allowed, ledger) :=
      w.ledger.canAsk w.registry q.tenant (s.now w.outside).day q.request.estimateTokens
    let w := { w with ledger }
    if allowed then (.ok (), w)
    else (.error (.fromProvider .quotaExceeded "quota"
      ("Chat quota exceeded for tenant '" ++ q.tenant ++ "'")), w)
  else (.ok (), w)

/-- Counts an answer. The clock is looked at twice: to see whether the count belongs to an earlier
day, and to date it. -/
def record (s : ChatService σ) (tenant : String) (tokens : Int) (w : World σ) : World σ :=
  if s.limited then
    let seen := (s.now w.outside).day
    let w := w.withOutside (s.lapse w.outside)
    { w with ledger := w.ledger.recordRequest tenant seen tokens (s.now w.outside).day }
  else w

def answer (s : ChatService σ) (q : Inquiry) : Action (World σ) ChatReply := do
  s.allow q
  let question ← q.question
  let findings ← World.onOutside (s.retriever.retrieve (q.search question))
  let composed := q.request.ground findings.sources
  let reply ← World.onOutside (s.model.complete composed)
  Action.change (s.record q.tenant (reply.cost composed))
  return reply

end ChatService

end Retrieval
