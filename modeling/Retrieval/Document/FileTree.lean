import Retrieval.Document.Loader
import Retrieval.Metadata
import Retrieval.Text.Url

/-!
# Documents in files

A snapshot of a file system: the files and directories by absolute path, and the working directory.
A path is followed name by name, and names and paths have a greatest size. The file loader takes
`file://` addresses and plain paths, guesses the kind of a document from the ending of its name, and
makes the name its title.
-/

namespace Retrieval

/-- A path as the names on the way from the root or from the working directory. -/
structure FilePath where
  /-- The slashes at the beginning, none if the path starts at the working directory. -/
  root : String
  names : List String
deriving DecidableEq, Repr

namespace FilePath

/-- The slashes that open a path. Two are kept as they are, more count as one. -/
def rootOf (text : List Char) : String :=
  match (text.takeWhile (· == '/')).length with
  | 0 => ""
  | 2 => "//"
  | _ => "/"

/-- Reads a path; empty names and single dots mean nothing. -/
def ofText (text : List Char) : FilePath :=
  ⟨rootOf text,
    (Text.splitAt '/' text).filterMap fun name =>
      if name.isEmpty || name == ['.'] then none else some (String.ofList name)⟩

/-- A path without a name is the working directory. -/
def render (p : FilePath) : String :=
  if p.root.isEmpty && p.names.isEmpty then "." else p.root ++ "/".intercalate p.names

def name (p : FilePath) : String := p.names.getLast?.getD ""

/-- The ending of a name from its last dot on; the dot is neither first nor last. -/
def ending (name : List Char) : List Char :=
  match Text.cutAt '.' name.reverse with
  | some (letter :: letters, _ :: _) => '.' :: (letter :: letters).reverse
  | _ => []

def knownEndings : List (String × String) :=
  [(".txt", "text/plain"), (".md", "text/markdown"), (".html", "text/html"),
    (".json", "application/json")]

def mimeType (p : FilePath) : String :=
  (knownEndings.lookup (Text.lower (String.ofList (ending p.name.toList)))).getD
    Document.unknownMimeType

end FilePath

structure FileTree where
  files : List (List String × List UInt8)
  directories : List (List String)
  /-- The names on the way to the working directory. -/
  working : List String
deriving Inhabited

namespace FileTree

def isDirectory (tree : FileTree) (place : List String) : Bool :=
  (tree.working :: tree.directories).any (place.isPrefixOf ·) ||
    tree.files.any fun file => place.isPrefixOf file.1 && place.length < file.1.length

/-- The bytes a name may have. -/
def longestName : Nat := 255

/-- The bytes a path may have. -/
def longestPath : Nat := 4095

inductive Entry
  | file (content : List UInt8)
  | directory
  | missing
  | tooLong

/-- Follows names from a directory; every name but the last must be a directory. -/
def follow (tree : FileTree) (here : List String) : List String → Entry
  | [] => .directory
  | ".." :: later => follow tree here.dropLast later
  | name :: later =>
      let there := here ++ [name]
      if longestName < name.utf8ByteSize then .tooLong
      else if tree.isDirectory there then follow tree there later
      else match later, tree.files.lookup there with
        | [], some content => .file content
        | _, _ => .missing

def places (here : List String) : List String → List (List String)
  | [] => []
  | ".." :: later => places here.dropLast later
  | name :: later => (here ++ [name]) :: places (here ++ [name]) later

def start (tree : FileTree) (p : FilePath) : List String :=
  if p.root.isEmpty then tree.working else []

/-- Puts a file where a path leads, and makes the directories on the way. -/
def add (tree : FileTree) (p : FilePath) (content : List UInt8) : FileTree :=
  let places := places (tree.start p) p.names
  { tree with files := tree.files ++ [(places.getLast?.getD [], content)],
              directories := tree.directories ++ places.dropLast }

def find (tree : FileTree) (p : FilePath) : Entry :=
  if longestPath < p.render.utf8ByteSize then .tooLong else tree.follow (tree.start p) p.names

def tooLong (p : FilePath) : Fault :=
  { kind := .other "OSError"
    message := "[Errno 36] File name too long: " ++ Text.quote p.render }

def isADirectory (p : FilePath) : Fault :=
  { kind := .other "IsADirectoryError"
    message := "[Errno 21] Is a directory: " ++ Text.quote p.render }

end FileTree

namespace Loader

variable {ω : Type}

def fileName : String := "file-loader"
def fileScheme : String := "file://"

def supportsFile (uri : String) : Bool :=
  uri.startsWith fileScheme || !Text.occursIn [':', '/', '/'] uri.toList

def filePath (uri : String) : Outcome FilePath :=
  if uri.startsWith fileScheme then
    match Text.Url.path (uri.toList.drop 5) with
    | .ok path => .ok (.ofText (Text.Url.unescape path))
    | .error defect => .error (.badValue defect.text)
  else .ok (.ofText uri.toList)

def loadFile (tree : FileTree) (uri : String) : Outcome Document := do
  let path ← filePath uri
  match tree.find path with
  | .file content => return ⟨uri, content, path.mimeType, some [(Key.title, .text path.name)]⟩
  | .tooLong => throw (FileTree.tooLong path)
  | .directory | .missing =>
      throw (.fromProvider .documentLoad fileName ("File not found: " ++ uri))

def file (tree : ω → FileTree) : Loader ω :=
  immediate supportsFile fun uri w => (loadFile (tree w) uri, w)

end Loader

end Retrieval
