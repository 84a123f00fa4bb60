import ScriptSense.Files.Discovery
import ScriptSense.Wire.Editor

/-!
# Loading settings and scripts

A command prints text, may change files, and may fail. A failure is a message and perhaps its cause,
which is shown on the same line or in a paragraph of its own.

Settings come from a file, or are the standard ones. Scripts are opened one by one in the order of
their paths, and the first that cannot be read ends it.
-/

namespace ScriptSense.CommandLine

open Files

structure Failure where
  message : String
  cause : Option String
  deriving DecidableEq, Repr, Inhabited

namespace Failure

def ofMessage (message : String) : Failure := ⟨message, none⟩

def ofSettings (fault : String) : Failure :=
  ⟨Wire.invalidSettings fault, some fault⟩

def reading (path : String) (trouble : Trouble) : Failure :=
  ⟨"Failed to read " ++ path, some trouble.message⟩

def writing (path : String) (trouble : Trouble) : Failure :=
  ⟨"Failed to write " ++ path, some trouble.message⟩

/-- The message and its cause on one line. -/
def inline (failure : Failure) : String :=
  match failure.cause with
  | some cause => failure.message ++ ": " ++ cause
  | none => failure.message

/-- The message, and its cause in a paragraph of its own. -/
def full (failure : Failure) : String :=
  match failure.cause with
  | some cause => failure.message ++ "\n\nCaused by:\n    " ++ cause
  | none => failure.message

end Failure

/-- What a command printed, whether it failed, and the files as it left them. -/
structure Outcome where
  output : String
  failure : Option Failure
  files : Tree

/-- A line of output. -/
def line (text : String) : String :=
  text ++ "\n"

namespace Outcome

def failed (files : Tree) (failure : Failure) : Outcome :=
  ⟨"", some failure, files⟩

def printed (files : Tree) (output : String) : Outcome :=
  ⟨output, none, files⟩

end Outcome

/-- The output of a value as JSON, unless it has no form for editors. -/
def prettyOutput (value : Except String Json) : Except Failure String :=
  match value with
  | .ok value => .ok (line value.pretty)
  | .error reason => .error (.ofMessage reason)

/-- The settings of a file, or the standard ones if no file is named. -/
def loadSettings (files : Tree) (path : Option String) : Except Failure Settings :=
  match path with
  | none => .ok Settings.standard
  | some path =>
    match files.readText path with
    | .error trouble => .error (.reading path trouble)
    | .ok text => (Wire.settingsOfText text).mapError Failure.ofSettings

/-- A script that was opened, and what was found in it. -/
structure OpenedFile where
  path : String
  uri : String
  report : Report
  deriving DecidableEq, Repr, Inhabited

def openFile (files : Tree) (workspace : Workspace) (path : String) :
    Except Failure (Workspace × OpenedFile) :=
  match files.readText path with
  | .error trouble => .error (.reading path trouble)
  | .ok text =>
    let uri := files.uri path
    let (workspace, report) := workspace.apply ⟨uri, text, .opened⟩
    .ok (workspace, ⟨path, uri, report⟩)

def openAll (files : Tree) (workspace : Workspace) :
    List String → Except Failure (Workspace × List OpenedFile)
  | [] => .ok (workspace, [])
  | path :: rest =>
    match openFile files workspace path with
    | .error failure => .error failure
    | .ok (workspace, opened) =>
      match openAll files workspace rest with
      | .error failure => .error failure
      | .ok (workspace, others) => .ok (workspace, opened :: others)

/-- Opens every script below `path`. -/
def openTree (files : Tree) (settings : Settings) (path : String) :
    Except Failure (Workspace × List OpenedFile) :=
  if files.exists? path then openAll files (Workspace.empty settings) (files.scripts path)
  else .error (.ofMessage (path ++ " does not exist"))

/-- Opens one file in a new workspace. -/
def openAlone (files : Tree) (settings : Settings) (path : String) :
    Except Failure (Workspace × OpenedFile) :=
  openFile files (Workspace.empty settings) path

end ScriptSense.CommandLine
