import ScriptSense.Files.Glob
import ScriptSense.Files.Tree
import ScriptSense.Text.Line

/-!
# Discovery of scripts

The scripts below a path are the files with the extension of scripts that no rule ignores. A
directory that is ignored is not entered. A path that names a script is its own only discovery.

A directory may hold rules for what is not to be looked at below it. Of the rules of one file the
last that matches decides, and the rules of a directory come before those of the directories above
it. The file `.ignore` comes first, then `.gitignore`, then the excludes of a repository; the last
two count only inside a repository, and no further up than its root.
-/

namespace ScriptSense.Files

/-- A rule: the patterns that it matches by, and whether it brings back what another one ignores. -/
structure Rule where
  patterns : List (List GlobToken)
  keeps : Bool
  onlyDirectories : Bool
  deriving DecidableEq, Repr, Inhabited

inductive Verdict
  | ignored
  | kept
  deriving DecidableEq, Repr, Inhabited

namespace Rule

def endsWithEscapedSpace (line : List Char) : Bool :=
  ['\\', ' '].isSuffixOf line

/-- A line without its sign and the slash it starts with: what is left, whether it keeps, and
whether it had the slash. -/
def splitSign (line : List Char) : List Char × Bool × Bool :=
  match line with
  | '\\' :: '!' :: rest => ('!' :: rest, false, false)
  | '\\' :: '#' :: rest => ('#' :: rest, false, false)
  | '!' :: '/' :: rest => (rest, true, true)
  | '!' :: rest => (rest, true, false)
  | '/' :: rest => (rest, false, true)
  | _ => (line, false, false)

def withoutFinalSlash (line : List Char) : List Char :=
  let shorter := line.dropLast
  if shorter.getLast? = some '\\' then shorter.dropLast else shorter

/-- A pattern without slashes matches in every directory, and one that ends in two stars matches
only what is inside. -/
def completePattern (anchored : Bool) (pattern : List Char) : List Char :=
  let anywhere := !anchored && !pattern.contains '/' && pattern != ['*', '*']
  let whole := if anywhere then ['*', '*', '/'] ++ pattern else pattern
  if ['/', '*', '*'].isSuffixOf whole then whole ++ ['/', '*'] else whole

/-- The rule of a line. An empty line, a comment and a malformed pattern give none. -/
def parse? (line : List Char) : Option Rule :=
  let trimmed := if endsWithEscapedSpace line then line else Text.trimEnd line
  if trimmed.isEmpty ∨ trimmed.head? = some '#' then none
  else
    let (body, keeps, anchored) := splitSign trimmed
    let onlyDirectories := body.getLast? == some '/'
    let pattern := if onlyDirectories then withoutFinalSlash body else body
    match Braces.expand (completePattern anchored pattern) with
    | none => none
    | some patterns =>
      (patterns.mapM Glob.tokens?).map fun patterns ↦ ⟨patterns, keeps, onlyDirectories⟩

/-- Whether a rule speaks of the path, which is relative to the directory of the rule. -/
def applies (rule : Rule) (path : List String) (isDirectory : Bool) : Bool :=
  let bytes := Text.encodeUtf8 (List.intercalate ['/'] (path.map String.toList))
  (isDirectory || !rule.onlyDirectories) && rule.patterns.any (Glob.accepts · bytes)

def verdict (rule : Rule) : Verdict :=
  if rule.keeps then .kept else .ignored

/-- The lines of a file of rules, up to the first that is no text. -/
def textLines (bytes : List UInt8) : List (List Char) :=
  let decoded := (Text.splitAt (· == '\n'.toNat.toUInt8) bytes).map Text.decodeUtf8?
  ((decoded.takeWhile Option.isSome).filterMap id).map Text.dropReturn

/-- The rules of a file; a byte order mark at its start does not count. -/
def ofFile (bytes : List UInt8) : List Rule :=
  match textLines bytes with
  | [] => []
  | first :: rest => (first.dropWhile (· == '\uFEFF') :: rest).filterMap parse?

/-- What the last of the rules that apply says. -/
def decide? (rules : List Rule) (path : List String) (isDirectory : Bool) : Option Verdict :=
  (rules.reverse.find? (·.applies path isDirectory)).map Rule.verdict

end Rule

/-- The rules that a directory holds, and the names that lead to it from the root. -/
structure RuleSet where
  place : List String
  plain : List Rule
  repository : List Rule
  excludes : List Rule
  isRepository : Bool
  deriving Repr, Inhabited

namespace RuleSet

def rulesAt (node : Node) (names : List String) : List Rule :=
  match node.descend? names with
  | some (.file bytes) => Rule.ofFile bytes
  | _ => []

/-- The rules of the directory `node` at `place`. -/
def ofDirectory (place : List String) (node : Node) : RuleSet where
  place := place
  plain := rulesAt node [".ignore"]
  repository := rulesAt node [".gitignore"]
  excludes := rulesAt node [".git", "info", "exclude"]
  isRepository := (node.child? ".git").isSome

/-- The directories up to the nearest repository, out of those from the innermost to the root. -/
def throughRepository : List RuleSet → List RuleSet
  | [] => []
  | set :: outer => if set.isRepository then [set] else set :: throughRepository outer

/-- What a kind of rules says of the path, the innermost directory first. -/
def decide? (rules : RuleSet → List Rule) (sets : List RuleSet) (path : List String)
    (isDirectory : Bool) : Option Verdict :=
  sets.findSome? fun set ↦
    Rule.decide? (rules set) (path.drop set.place.length) isDirectory

/-- Whether the path, given from the root, is ignored by the rules of the directories it is in. -/
def ignores (sets : List RuleSet) (path : List String) (isDirectory : Bool) : Bool :=
  let inside := if sets.any isRepository then throughRepository sets else []
  let verdict :=
    (decide? plain sets path isDirectory).or
      ((decide? repository inside path isDirectory).or
        (decide? excludes inside path isDirectory))
  verdict == some .ignored

end RuleSet

def scriptExtension : String := "inmu"

def isScript (path : String) : Bool :=
  (extension? ((pieces path).getLast?.getD "")) == some scriptExtension

namespace Discovery

mutual

/-- The files below `node`, which is at `path` and, from the root, at `place`. -/
def filesBelow (sets : List RuleSet) (path : String) (place : List String) :
    Node → List String
  | .file _ => [path]
  | .directory entries =>
    entryFiles (RuleSet.ofDirectory place (.directory entries) :: sets) path place entries

/-- The files at and below the entries of the directory at `path`. -/
def entryFiles (sets : List RuleSet) (path : String) (place : List String) :
    List (String × Node) → List String
  | [] => []
  | (name, node) :: rest =>
    let here :=
      if RuleSet.ignores sets (place ++ [name]) node.isDirectory then []
      else filesBelow sets (join path name) (place ++ [name]) node
    here ++ entryFiles sets path place rest

end

/-- The rules of the directories above a place, the innermost first. -/
def rulesAbove (root : Node) (place : List String) : List RuleSet :=
  (List.range place.length).reverse.filterMap fun count ↦
    let names := place.take count
    (root.descend? names).map (RuleSet.ofDirectory names)

end Discovery

/-- The paths of the scripts below `path`, in the order of paths. -/
def Tree.scripts (tree : Tree) (path : String) : List String :=
  match tree.resolve path with
  | .error _ => []
  | .ok place =>
    match tree.root.descend? place with
    | none => []
    | some node =>
      let found := Discovery.filesBelow (Discovery.rulesAbove tree.root place) path place node
      (found.filter isScript).mergeSort precedes

end ScriptSense.Files
