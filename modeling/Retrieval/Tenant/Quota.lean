import Retrieval.Schema.Day

/-!
# Quotas and usage

A tenant's quotas limit what it may ingest and ask; a limit that is not set does not limit. Usage
counts what was recorded. Requests are counted by day: the count starts afresh with the first check
or record on a later day.
-/

namespace Retrieval

open Schema Time

structure Quotas where
  maxDocuments : Option Int
  maxStorageBytes : Option Int
  maxRequestsPerDay : Option Int
  maxTokensPerRequest : Option Int
deriving DecidableEq, Repr

namespace Quotas

def limit (name : String) (fields : Fields) : Checked (Option Int) :=
  optionalField name none (Reader.optional (Reader.atLeast 0)) fields

def read (fields : Fields) : Checked Quotas :=
  Quotas.mk <$> limit "max_documents" fields <*> limit "max_storage_bytes" fields <*>
    limit "max_requests_per_day" fields <*> limit "max_tokens_per_request" fields

def toFields (q : Quotas) : Fields :=
  [("max_documents", .ofOption .int q.maxDocuments),
    ("max_storage_bytes", .ofOption .int q.maxStorageBytes),
    ("max_requests_per_day", .ofOption .int q.maxRequestsPerDay),
    ("max_tokens_per_request", .ofOption .int q.maxTokensPerRequest)]

end Quotas

def isBelow (amount : Int) (limit : Option Int) : Bool := limit.all (amount < ·)

def isWithin (amount : Int) (limit : Option Int) : Bool := limit.all (amount ≤ ·)

structure Usage where
  documents : Int
  storageBytes : Int
  requestsToday : Int
  /-- The day of the last request, as a day number. -/
  lastRequest : Option Nat
  tokens : Int
deriving DecidableEq, Repr

namespace Usage

def zero : Usage := ⟨0, 0, 0, none, 0⟩

instance : Inhabited Usage := ⟨zero⟩

def read (fields : Fields) : Checked Usage :=
  Usage.mk <$> optionalField "document_count" 0 Reader.int fields <*>
    optionalField "storage_bytes" 0 Reader.int fields <*>
    optionalField "requests_today" 0 Reader.int fields <*>
    optionalField "last_request_date" none (Reader.optional Day.read) fields <*>
    optionalField "total_tokens_used" 0 Reader.int fields

def toFields (u : Usage) : Fields :=
  [("document_count", .int u.documents), ("storage_bytes", .int u.storageBytes),
    ("requests_today", .int u.requestsToday),
    ("last_request_date", .ofOption (fun day => .text (Date.ofDay day).render) u.lastRequest),
    ("total_tokens_used", .int u.tokens)]

/-- Usage as seen on a day: the requests of an earlier day no longer count. -/
def onDay (u : Usage) (today : Nat) : Usage :=
  match u.lastRequest with
  | some last =>
      if last < today then { u with requestsToday := 0, lastRequest := some today } else u
  | none => u

theorem onDay_eq (u : Usage) (today : Nat) : u.onDay today =
    if u.lastRequest.any (· < today) then { u with requestsToday := 0, lastRequest := some today }
    else u := by
  unfold onDay
  cases u.lastRequest <;> simp

@[simp] theorem documents_onDay (u : Usage) (today : Nat) :
    (u.onDay today).documents = u.documents := by
  rw [onDay_eq]
  split <;> rfl

@[simp] theorem storageBytes_onDay (u : Usage) (today : Nat) :
    (u.onDay today).storageBytes = u.storageBytes := by
  rw [onDay_eq]
  split <;> rfl

@[simp] theorem tokens_onDay (u : Usage) (today : Nat) : (u.onDay today).tokens = u.tokens := by
  rw [onDay_eq]
  split <;> rfl

theorem requestsToday_onDay (u : Usage) (today : Nat) : (u.onDay today).requestsToday =
    if u.lastRequest.any (· < today) then 0 else u.requestsToday := by
  rw [onDay_eq]
  split <;> rfl

def addDocument (u : Usage) (bytes : Int) : Usage :=
  { u with documents := u.documents + 1, storageBytes := u.storageBytes + bytes }

/-- The clock is looked at twice: a request is counted on the day that is seen first and dated with
the day that is seen then. -/
def addRequest (u : Usage) (seen dated : Nat) (tokens : Int) : Usage :=
  let u := u.onDay seen
  { u with requestsToday := u.requestsToday + 1, lastRequest := some dated,
           tokens := u.tokens + tokens }

end Usage

def Quotas.admitsDocument (q : Quotas) (u : Usage) : Bool :=
  isBelow u.documents q.maxDocuments && isBelow u.storageBytes q.maxStorageBytes

def Quotas.admitsTokens (q : Quotas) (tokens : Int) : Bool := isWithin tokens q.maxTokensPerRequest

def Quotas.admitsRequest (q : Quotas) (u : Usage) : Bool :=
  isBelow u.requestsToday q.maxRequestsPerDay

end Retrieval
