import ScriptSense.CommandLine.Program

/-!
# The command line

A run looks at files through a tree, so the tree is read first: what the arguments name, the scripts
below it, and the rules for ignored files on the way to it. Files that nothing looks at are in the
tree without their contents. When the run has ended, the files that it changed are written.
-/

namespace ScriptSense.Main

open Files

/-- Names of the files that tell what is ignored. -/
def ruleFiles : List String := [".ignore", ".gitignore", "exclude"]

def kind? (path : String) : IO (Option IO.FS.FileType) := do
  try return some (← (← IO.FS.realPath path).metadata).type
  catch _ => return none

/-- The names that lead from the root to `path`. -/
def place (path : String) : IO (List String) := do
  return names (← IO.FS.realPath path).toString

/-- The file at `path`, or nothing if it cannot be read. -/
def readFile? (path : String) : IO (Option Node) := do
  try return some (.file (← IO.FS.readBinFile path).toList)
  catch _ => return none

mutual

/-- The directory at `path`, without what cannot be read. -/
partial def readDirectory (path : String) : IO Node := do
  try
    let children ← (← IO.FS.realPath path).readDir
    return .directory ((← children.mapM readEntry).toList.filterMap id)
  catch _ => return .directory []

/-- An entry of a directory, unless it is neither a file nor a directory or cannot be read. -/
partial def readEntry (child : IO.FS.DirEntry) : IO (Option (String × Node)) := do
  let path := child.path.toString
  let node ←
    match (← child.path.symlinkMetadata).type with
    | .dir => some <$> readDirectory path
    | .file =>
      if isScript path || ruleFiles.contains child.fileName then readFile? path
      else pure (some (.file []))
    | _ => pure none
  return node.map (child.fileName, ·)

end

/-- What a list starts with, from nothing to all of it. -/
def ways (names : List String) : List (List String) :=
  (List.range (names.length + 1)).map names.take

/-- The paths that lead to the places on the way to `path`, and to `path` itself. -/
def pathsOnTheWay (path : String) : List String :=
  (ways (pieces path)).tail.map fun way ↦ if way = [""] then "/" else "/".intercalate way

/-- Adds the files that say what is ignored below the directory at `path`. -/
def addRules (tree : Tree) (path : String) : IO Tree := do
  let mut tree := tree
  for name in [[".ignore"], [".gitignore"], [".git", "info", "exclude"]] do
    if let some file ← readFile? (join path ("/".intercalate name)) then
      tree := { tree with root := tree.root.put (names path ++ name) file }
  if (← kind? (join path ".git")).isSome then
    tree := { tree with root := tree.root.makeDirectory (names path ++ [".git"]) }
  return tree

/-- Adds the directory at `path`, what is below it, and the rules above it. -/
def addDirectory (tree : Tree) (path : String) : IO Tree := do
  match ← kind? path with
  | some .dir =>
    let place ← place path
    let mut tree := { tree with root := tree.root.put place (← readDirectory path) }
    for above in ways place.dropLast do
      tree ← addRules tree (absolutePath above)
    return tree
  | _ => return tree

/-- Adds the places on the way to `path`, and the file at `path` if it is one. -/
def addWay (tree : Tree) (path : String) : IO Tree := do
  let mut tree := tree
  for path in pathsOnTheWay path do
    match ← kind? path with
    | some .dir => tree := { tree with root := tree.root.makeDirectory (← place path) }
    | some .file =>
      if let some file ← readFile? path then
        tree := { tree with root := tree.root.put (← place path) file }
    | _ => pure ()
  return tree

/-- The texts of an argument that may be paths: the argument, and the value attached to it. -/
def possiblePaths (argument : String) : List String :=
  argument :: (CommandLine.splitLong argument.toList).2.toList

/-- The tree that a run with the given paths looks at. -/
def readTree (paths : List String) : IO Tree := do
  let working := names (← IO.currentDir).toString
  let empty : Tree := ⟨(Node.directory []).makeDirectory working, working⟩
  paths.foldlM addWay (← paths.foldlM addDirectory empty)

/-- Writes the files at those of the paths whose texts have changed. -/
def writeChanges (before after : Tree) (paths : List String) : IO Unit := do
  for path in paths do
    match before.readText path, after.readText path with
    | .ok old, .ok new => if old != new then IO.FS.writeFile path new
    | _, _ => pure ()

end ScriptSense.Main

def main (arguments : List String) : IO UInt32 := do
  let paths := arguments.flatMap ScriptSense.Main.possiblePaths
  let files ← ScriptSense.Main.readTree paths
  let ending := ScriptSense.CommandLine.run files arguments
  ScriptSense.Main.writeChanges files ending.files paths
  IO.print ending.output
  if let some complaint := ending.complaint then
    IO.eprintln complaint
  return ending.exitCode.toUInt32
