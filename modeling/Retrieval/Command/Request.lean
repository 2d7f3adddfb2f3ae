import Retrieval.Command.Usage
import Retrieval.Passage.Strategy

/-!
# What a command line asks for

There are four commands: to ingest documents, to list the versions of a document, to query, and to
list the tenants.
-/

namespace Retrieval.Command

structure Options where
  tenant : String
  docId : Option String
  collection : Option String
  strategy : Option Strategy
  maxSize : Option Int
  overlap : Option Int
  update : Bool
  concurrency : Option Int
  topK : Option Int
  clauses : List String
deriving DecidableEq, Repr

def Options.standard : Options where
  tenant := "default"
  docId := none
  collection := none
  strategy := none
  maxSize := none
  overlap := none
  update := false
  concurrency := none
  topK := none
  clauses := []

namespace Options

def tenantRule : Rule Options := .text "--tenant" fun s o => { o with tenant := s }
def docIdRule : Rule Options := .text "--doc-id" fun s o => { o with docId := some s }
def collectionRule : Rule Options := .text "--collection" fun s o => { o with collection := some s }
def updateRule : Rule Options := .mark "--update" fun o => { o with update := true }
def maxSizeRule : Rule Options := .int "--max-size" fun n o => { o with maxSize := some n }
def overlapRule : Rule Options := .int "--overlap" fun n o => { o with overlap := some n }
def topKRule : Rule Options := .int "--top-k" fun n o => { o with topK := some n }

def concurrencyRule : Rule Options :=
  .int "--concurrency" fun n o => { o with concurrency := some n }

def strategyRule : Rule Options :=
  .choice "--strategy" (Strategy.all.map fun s => (s.name, s)) fun s o =>
    { o with strategy := some s }

def clauseRule : Rule Options :=
  .text "--where" fun s o => { o with clauses := o.clauses ++ [s] }

end Options

inductive Verb
  | ingest
  | versions
  | query
  | tenants
deriving DecidableEq, Repr

namespace Verb

def all : List Verb := [.ingest, .versions, .query, .tenants]

def name : Verb → String
  | .ingest => "ingest"
  | .versions => "versions"
  | .query => "query"
  | .tenants => "tenants"

def ofName? (name : String) : Option Verb := all.find? (·.name == name)

@[simp] theorem ofName?_name (v : Verb) : ofName? v.name = some v := by cases v <;> decide

theorem name_of_ofName? {name : String} {v : Verb} (h : ofName? name = some v) : v.name = name :=
  beq_iff_eq.1 (List.find?_some (p := fun v : Verb => v.name == name) h)

open Options in
def usage : Verb → Usage Options
  | .ingest => ⟨[.help, tenantRule, docIdRule, strategyRule, maxSizeRule, overlapRule, updateRule,
      concurrencyRule, collectionRule], .many⟩
  | .versions => ⟨[.help, tenantRule, docIdRule, collectionRule], .nothing⟩
  | .query => ⟨[.help, tenantRule, topKRule, clauseRule, collectionRule], .one⟩
  | .tenants => ⟨[.help], .nothing⟩

end Verb

inductive Task
  | ingest (uris : List String) (options : Options)
  | versions (docId : String) (options : Options)
  | query (text : String) (options : Options)
  | tenants
deriving DecidableEq, Repr

/-- The task of a command line that names a verb; what it needs must be there. -/
def Verb.task (v : Verb) (r : Reading Options) : Except Complaint Task :=
  match v, r.operands, r.options.docId with
  | .ingest, [], _ => .error (.required ["uris"])
  | .ingest, uris, _ => .ok (.ingest uris r.options)
  | .versions, _, none => .error (.required ["--doc-id"])
  | .versions, _, some docId => .ok (.versions docId r.options)
  | .query, [], _ => .error (.required ["text"])
  | .query, text :: _, _ => .ok (.query text r.options)
  | .tenants, _, _ => .ok .tenants

/-- What a command line comes down to. -/
inductive Request
  | run (task : Task)
  /-- Help was asked for, or nothing was. -/
  | help (asked : Bool)
  | refused (program : String) (complaint : Complaint)
deriving DecidableEq, Repr

namespace Request

def ofStop (program : String) : Stop → Request
  | .help => .help true
  | .refused complaint => .refused program complaint

/-- All words must be made use of. -/
def ofTask (program : String) (left : List String) (task : Task) : Request :=
  if left.isEmpty then .run task else .refused program (.unrecognized left)

/-- A command line from its verb on; `left` was left over before it. -/
def ofVerb (program : String) (left : List String) (v : Verb) (words : List String) : Request :=
  let called := program ++ " " ++ v.name
  match v.usage.parse .standard words with
  | .error stop => .ofStop called stop
  | .ok r =>
      match v.task r with
      | .error complaint => .refused called complaint
      | .ok task => .ofTask program (left ++ r.left) task

def usage : Usage Options := ⟨[.help], .command⟩

def ofWords (program : String) (words : List String) : Request :=
  match usage.parse .standard words with
  | .error stop => .ofStop program stop
  | .ok r =>
      match r.operands with
      | [] => if r.left.isEmpty then .help false else .refused program (.unrecognized r.left)
      | name :: rest =>
          match Verb.ofName? name with
          | some v => .ofVerb program r.left v rest
          | none => .refused program (.notOneOf "command" name (Verb.all.map Verb.name))

def helpText (program : String) : String :=
  String.join (("usage:" :: Verb.all.map fun v =>
    "  " ++ " ".intercalate (program :: v.name :: v.usage.summary)).map (· ++ "\n"))

end Request

end Retrieval.Command
