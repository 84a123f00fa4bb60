import ScriptSense.CommandLine.Loading

/-!
# The commands

One command checks a file, or every script below a directory, and fails if any diagnostic is an
error. Another prints the indented text of a file or puts it in the place of the file's own text,
and a third lists the declarations of a file as a table of names, kinds and places.

The last command asks about a position. Every script below a directory is opened, and then the file
that is asked about, unless it is among them. Lines and columns are counted from one.
-/

namespace ScriptSense.CommandLine

open Files

namespace Check

def collect (files : Tree) (settings : Settings) (path : String) :
    Except Failure (List OpenedFile) :=
  if files.isFile path then (openAlone files settings path).map fun (_, opened) ↦ [opened]
  else (openTree files settings path).map Prod.snd

/-- The number of diagnostics of a severity in all the files. -/
def total (severity : Severity) (opened : List OpenedFile) : Nat :=
  (opened.flatMap (·.report.diagnostics)).countP (·.severity == severity)

def diagnosticLine (path : String) (diagnostic : Diagnostic) : String :=
  line (path ++ ":" ++ Nat.repr (diagnostic.range.start.line + 1) ++ ":" ++
    Nat.repr (diagnostic.range.start.column + 1) ++ ": " ++ diagnostic.severity.name ++ ": " ++
      diagnostic.message)

def summary (opened : List OpenedFile) : String :=
  line ("\nChecked " ++ Nat.repr opened.length ++ " files: " ++ Nat.repr (total .error opened) ++
    " errors, " ++ Nat.repr (total .warning opened) ++ " warnings")

def listing (opened : List OpenedFile) : String :=
  String.join (opened.flatMap fun file ↦
    file.report.diagnostics.map (diagnosticLine file.path)) ++ summary opened

def output (json : Bool) (opened : List OpenedFile) : Except Failure String :=
  if json then prettyOutput ((opened.mapM (Editor.report ·.report)).map .array)
  else .ok (listing opened)

def verdict (opened : List OpenedFile) : Option Failure :=
  let errors := total .error opened
  if 0 < errors then some (.ofMessage (Nat.repr errors ++ " errors found")) else none

def run (files : Tree) (settings : Settings) (json : Bool) (path : String) : Outcome :=
  match collect files settings path with
  | .error failure => .failed files failure
  | .ok opened =>
    match output json opened with
    | .error failure => .failed files failure
    | .ok text => ⟨text, verdict opened, files⟩

end Check

namespace Format

/-- What the command line may say about indentation. -/
structure Flags where
  tabSize : Option Nat
  useTabs : Bool
  deriving DecidableEq, Repr, Inhabited

def style (settings : Settings) (flags : Flags) : IndentStyle where
  tabSize := flags.tabSize.getD settings.tabSize
  insertSpaces := settings.insertSpaces && !flags.useTabs

def edit (files : Tree) (settings : Settings) (style : IndentStyle) (path : String) :
    Except Failure Edit :=
  match openAlone files settings path with
  | .error failure => .error failure
  | .ok (workspace, opened) =>
    match workspace.format opened.uri style with
    | some edit => .ok edit
    | none => .error (.ofMessage (opened.uri ++ " is not open"))

def run (files : Tree) (settings : Settings) (json : Bool) (style : IndentStyle) (write : Bool)
    (path : String) : Outcome :=
  match edit files settings style path with
  | .error failure => .failed files failure
  | .ok edit =>
    if write then
      match files.writeText path edit.newText with
      | .error trouble => .failed files (.writing path trouble)
      | .ok files => .printed files ""
    else if json then .printed files (line (Json.array [Editor.edit edit]).pretty)
    else .printed files (line edit.newText)

end Format

namespace Symbols

def collect (files : Tree) (settings : Settings) (path : String) :
    Except Failure (List OutlineItem) :=
  (openAlone files settings path).map fun (workspace, opened) ↦ workspace.outline opened.uri

/-- A text with spaces after it, up to a width in characters. -/
def padded (width : Nat) (text : String) : String :=
  text ++ String.ofList (List.replicate (width - text.length) ' ')

def row (name kind place : String) : String :=
  line (padded 40 name ++ " " ++ padded 10 kind ++ " " ++ place)

def itemRow (item : OutlineItem) : String :=
  row item.name item.kind.name
    (Nat.repr (item.location.range.start.line + 1) ++ ":" ++
      Nat.repr (item.location.range.start.column + 1))

def table (items : List OutlineItem) : String :=
  "\n" ++ row "NAME" "KIND" "LOCATION" ++ line (String.ofList (List.replicate 64 '-')) ++
    String.join (items.map itemRow) ++
      line ("\nFound " ++ Nat.repr items.length ++ " symbols")

def output (json : Bool) (path : String) (items : List OutlineItem) : Except Failure String :=
  if json then prettyOutput ((items.mapM Editor.outlineItem).map .array)
  else if items.isEmpty then .ok (line ("No symbols found in " ++ path))
  else .ok (table items)

def run (files : Tree) (settings : Settings) (json : Bool) (path : String) : Outcome :=
  match collect files settings path with
  | .error failure => .failed files failure
  | .ok items =>
    match output json path items with
    | .error failure => .failed files failure
    | .ok text => .printed files text

end Symbols

namespace Query

inductive Question
  | hover
  | definition
  | references
  deriving DecidableEq, Repr, Inhabited

inductive Answer
  | hover (hover : Option Hover)
  | locations (locations : List Location)
  deriving DecidableEq, Repr

/-- The position of a line and a column that are counted from one. -/
def toPosition (line column : Nat) : Except Failure Position :=
  if line = 0 ∨ column = 0 then .error (.ofMessage "line and column are 1-based")
  else .ok ⟨line - 1, column - 1⟩

/-- Opens the file that is asked about unless it is open, and gives its URI. -/
def openTarget (files : Tree) (workspace : Workspace) (path : String) :
    Except Failure (Workspace × String) :=
  let uri := files.uri path
  if workspace.documents.contains uri then .ok (workspace, uri)
  else (openFile files workspace path).map fun (workspace, opened) ↦ (workspace, opened.uri)

def answer (workspace : Workspace) (uri : String) (position : Position) : Question → Answer
  | .hover => .hover (workspace.hover uri position)
  | .definition => .locations (workspace.definitions uri position)
  | .references => .locations (workspace.references uri position)

/-- A question about a place in a file, with the directory whose scripts are searched. -/
structure Request where
  question : Question
  root : String
  file : String
  line : Nat
  column : Nat
  deriving DecidableEq, Repr, Inhabited

def execute (files : Tree) (settings : Settings) (request : Request) : Except Failure Answer :=
  match toPosition request.line request.column with
  | .error failure => .error failure
  | .ok position =>
    match openTree files settings request.root with
    | .error failure => .error failure
    | .ok (workspace, _) =>
      match openTarget files workspace request.file with
      | .error failure => .error failure
      | .ok (workspace, uri) => .ok (answer workspace uri position request.question)

/-- The path of a document, or its URI if it is no file. -/
def displayUri (uri : String) : String :=
  match (Uri.parse uri).toOption.bind Uri.filePath? with
  | some path => String.ofList (Text.decodeLossy path)
  | none => uri

def locationLine (location : Location) : String :=
  CommandLine.line (displayUri location.uri ++ ":" ++ Nat.repr (location.range.start.line + 1) ++
    ":" ++ Nat.repr (location.range.start.column + 1))

def listing (locations : List Location) : String :=
  if locations.isEmpty then CommandLine.line "No locations found"
  else
    String.join (locations.map locationLine) ++
      CommandLine.line ("\nFound " ++ Nat.repr locations.length ++ " locations")

def output (json : Bool) : Answer → Except Failure String
  | .hover hover =>
    if json then prettyOutput (.ok ((hover.map Editor.hover).getD .null))
    else .ok (CommandLine.line ((hover.map Hover.contents).getD "No hover information"))
  | .locations locations =>
    if json then prettyOutput ((locations.mapM Editor.location).map .array)
    else .ok (listing locations)

def run (files : Tree) (settings : Settings) (json : Bool) (request : Request) : Outcome :=
  match execute files settings request with
  | .error failure => .failed files failure
  | .ok answer =>
    match output json answer with
    | .error failure => .failed files failure
    | .ok text => .printed files text

end Query

end ScriptSense.CommandLine
