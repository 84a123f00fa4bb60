import ScriptSense.Text.Line
import ScriptSense.Uri.Parse

/-!
# Files and directories

A path is a text of names with slashes between them. Repeated slashes count as one, and a dot for a
name stands for the directory it is in, so that a path means the same without it.

A tree of files is seen from a working directory. Paths are resolved from the root or from the
working directory, one name at a time: each name but the last has to be a directory, and two dots go
up one directory, which at the root is the root.
-/

namespace ScriptSense.Files

/-- The texts between the slashes of a path. -/
def pieces (path : String) : List String :=
  (Text.splitAt (· == '/') path.toList).map String.ofList

/-- The names of a path, without the pieces that do not change what it means. -/
def names (path : String) : List String :=
  (pieces path).filter fun piece ↦ piece != "" && piece != "."

def isAbsolute (path : String) : Bool :=
  path.toList.head? == some '/'

/-- The absolute path with the given names. -/
def absolutePath (names : List String) : String :=
  if names.isEmpty then "/" else String.join (names.map ("/" ++ ·))

/-- The path of an entry of the directory at `path`. -/
def join (path name : String) : String :=
  if path = "" ∨ path.toList.getLast? = some '/' then path ++ name else path ++ "/" ++ name

/-- What follows the last dot of a name, unless that dot starts the name. -/
def extension? (name : String) : Option String :=
  let run := name.toList
  if run.tail.contains '.' then
    some (String.ofList (Text.takeEndWhile (· != '.') run))
  else none

def namesPrecede : List String → List String → Bool
  | [], _ => true
  | _ :: _, [] => false
  | a :: as, b :: bs => a < b || (a == b && namesPrecede as bs)

/-- The order of paths: name by name, and a path before those that go on from it. -/
def precedes (a b : String) : Bool :=
  namesPrecede (names a) (names b)

/-- The URI of the file with the given names. -/
def fileUri (names : List String) : String :=
  "file://" ++ absolutePath (names.map fun name ↦
    String.ofList (Uri.encode Uri.nameSet name.toList))

inductive Node
  | file (bytes : List UInt8)
  | directory (entries : List (String × Node))
  deriving Inhabited

/-- A tree and the names that lead to the working directory. -/
structure Tree where
  root : Node
  working : List String
  deriving Inhabited

/-- Why a file cannot be read. -/
inductive Trouble
  | notFound
  | notDirectory
  | isDirectory
  | notText
  deriving DecidableEq, Repr, Inhabited

def Trouble.message : Trouble → String
  | .notFound => "No such file or directory (os error 2)"
  | .notDirectory => "Not a directory (os error 20)"
  | .isDirectory => "Is a directory (os error 21)"
  | .notText => "stream did not contain valid UTF-8"

namespace Node

def isDirectory : Node → Bool
  | .directory _ => true
  | .file _ => false

def child? (name : String) : Node → Option Node
  | .directory entries => (entries.find? (·.1 == name)).map Prod.snd
  | .file _ => none

/-- The node that the names lead to. -/
def descend? (node : Node) (names : List String) : Option Node :=
  names.foldlM (fun node name ↦ node.child? name) node

/-- The entries of a directory; a file has none. -/
def entries : Node → List (String × Node)
  | .directory entries => entries
  | .file _ => []

/-- Puts `new` where the names lead to, with the directories on the way that are missing. -/
def put : Node → List String → Node → Node
  | _, [], new => new
  | node, name :: names, new =>
    let changed := put ((node.child? name).getD (.directory [])) names new
    if (node.child? name).isSome then
      .directory (node.entries.map fun entry ↦ if entry.1 = name then (name, changed) else entry)
    else .directory (node.entries ++ [(name, changed)])

/-- Makes the directories that the names lead to, where they are missing. -/
def makeDirectory (node : Node) (names : List String) : Node :=
  if (node.descend? names).any isDirectory then node else node.put names (.directory [])

end Node

namespace Tree

/-- Goes on from the node at `place`, whose names are in reverse, along the pieces of a path. -/
def walk (root : Node) (place : List String) : List String → Except Trouble (List String)
  | [] => .ok place
  | piece :: rest =>
    match root.descend? place.reverse with
    | none => .error .notFound
    | some (.file _) => .error .notDirectory
    | some (.directory entries) =>
      if piece = "" ∨ piece = "." then walk root place rest
      else if piece = ".." then walk root place.tail rest
      else if entries.any (·.1 == piece) then walk root (piece :: place) rest
      else .error .notFound

/-- The names from the root to the file or directory at `path`. -/
def resolve (tree : Tree) (path : String) : Except Trouble (List String) :=
  if path = "" then .error .notFound
  else
    let start := if isAbsolute path then [] else tree.working.reverse
    (walk tree.root start (pieces path)).map List.reverse

def node? (tree : Tree) (path : String) : Option Node :=
  match tree.resolve path with
  | .ok names => tree.root.descend? names
  | .error _ => none

def exists? (tree : Tree) (path : String) : Bool :=
  (tree.node? path).isSome

def isFile (tree : Tree) (path : String) : Bool :=
  match tree.node? path with
  | some (.file _) => true
  | _ => false

def readText (tree : Tree) (path : String) : Except Trouble String :=
  match tree.resolve path with
  | .error trouble => .error trouble
  | .ok names =>
    match tree.root.descend? names with
    | none => .error .notFound
    | some (.directory _) => .error .isDirectory
    | some (.file bytes) =>
      match Text.decodeUtf8? bytes with
      | some text => .ok (String.ofList text)
      | none => .error .notText

/-- Replaces the contents of the file at `path`. -/
def writeText (tree : Tree) (path text : String) : Except Trouble Tree :=
  match tree.resolve path with
  | .error trouble => .error trouble
  | .ok names =>
    match tree.root.descend? names with
    | some (.directory _) => .error .isDirectory
    | _ => .ok { tree with root := tree.root.put names (.file (Text.encodeUtf8 text.toList)) }

/-- The names of a path from the root, with its two-dot names kept. -/
def absoluteNames (tree : Tree) (path : String) : List String :=
  if isAbsolute path then names path else tree.working ++ names path

/-- The URI of the file at `path`; one that does not exist has the URI of its absolute path. -/
def uri (tree : Tree) (path : String) : String :=
  match tree.resolve path with
  | .ok names => fileUri names
  | .error _ => if path = "" then "file://" else fileUri (tree.absoluteNames path)

end Tree

end ScriptSense.Files
