import Retrieval.Command.Session
import Retrieval.Embedding.Remote
import Retrieval.Store.Memory
import Retrieval.Store.Remote
import Std.Time.DateTime.Timestamp

/-!
# The program

Reads the settings from the environment and the files that a command line names, carries out the
command, and prints what it wrote. There is no connection to remote services, so that each call to
one fails as if nobody were there.
-/

namespace Retrieval.Main

open Command

structure Host where
  now : Time.Moment
  tree : FileTree
  memory : Memory

def program : String := "retrieval"

def environment : IO (Table String) := do
  let mut found : Table String := []
  for name in Settings.names do
    for spelling in [name, name.map Char.toUpper] do
      if let some value ← IO.getEnv spelling then
        found := found ++ [(spelling, value)]
  return found

def clock : IO Time.Moment := do
  let now ← Std.Time.Timestamp.now
  return (Time.Moment.epoch.assumeUniversal).later (now.toNanosecondsSinceUnixEpoch.val / 1000)

def snapshot (paths : List String) : IO FileTree := do
  let here := FilePath.ofText (toString (← IO.currentDir)).toList
  let mut tree : FileTree := ⟨[], [], here.names⟩
  for path in paths do
    if let .ok bytes ← (IO.FS.readBinFile path).toBaseIO then
      tree := tree.add (.ofText path.toList) bytes.toList
  return tree

def paths : Request → List String
  | .run (.ingest uris _) => (uris.filter Loader.supportsFile).filterMap fun uri =>
      match Loader.filePath uri with
      | .ok path => some path.render
      | .error _ => none
  | _ => []

def unreachable : Fault := .fromProvider .unavailable RemoteStore.label "no connection"

/-- A store that nobody answers for. -/
def remoteStore : VectorStore Host where
  name := RemoteStore.label
  upsert _ _ := throw unreachable
  query _ := throw unreachable
  delete _ _ _ := throw unreachable

def service (d : Deployment) : Service Host where
  loader := Service.documents Host.tree fun _ => return .error (.broken "no connection")
  extractor := Service.texts fun _ _ => return none
  strategies := .standard
  route := ⟨(EmbeddingModel.ofSettings d.settings).embedder fun _ _ =>
    throw (.unreachable "no connection"), []⟩
  store := match d.storeKind with
    | .memory => Memory.backend.within Host.memory fun memory h => { h with memory }
    | .chroma => remoteStore
  model := (RemoteChat.ofSettings d.settings).chatModel fun _ =>
    throw (.unreachable "no connection")
  now := Host.now
  versioned := true
  limited := true
  cores := none

def execute (r : Request) (d : Outcome Deployment) (now : Time.Moment) (tree : FileTree) :
    Execution :=
  let (collection, registry) := match d with
    | .ok d => (d.settings.collection, d.registry)
    | .error _ => ("", [])
  let site : Site Host := ⟨.new ⟨now, tree, .empty collection⟩ registry, .new 0⟩
  let perform (t : Task) : Action (Session (Site Host)) Nat := do
    let d ← d
    t.perform d (service d)
  ((r.execute (Request.helpText program) perform).run site).1

end Retrieval.Main

open Retrieval Retrieval.Main in
def main (args : List String) : IO UInt32 := do
  let request := Command.Request.ofWords program args
  let settings := Settings.load (← environment) []
  let configPath := (settings.toOption.map (·.configPath)).toList
  let tree ← snapshot (configPath ++ paths request)
  let e := execute request (settings >>= Deployment.ofFiles tree) (← clock) tree
  IO.print e.out
  IO.eprint e.err
  match e.status with
  | .ok status => return status.toUInt32
  | .error f =>
      IO.eprintln (f.kind.name ++ ": " ++ f.text)
      return 1
