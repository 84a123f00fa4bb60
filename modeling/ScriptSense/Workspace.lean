import ScriptSense.Cursor
import ScriptSense.Diagnostic
import ScriptSense.Document.Layout
import ScriptSense.Document.Outline

/-!
# The workspace

A workspace follows the documents that are open. Each event names one document: opening or changing
it records its declarations and text anew and reports its diagnostics, closing it forgets both.
Questions are answered from what the events so far have left. The settings tell who reports
diagnostics, how many a document may have, and how it is indented.
-/

namespace ScriptSense

structure Settings where
  diagnosticSource : String
  maxProblems : Nat
  tabSize : Nat
  insertSpaces : Bool
  deriving DecidableEq, Repr

namespace Settings

def standard : Settings where
  diagnosticSource := Diagnose.defaultSource
  maxProblems := Diagnose.defaultLimit
  tabSize := Layout.defaultTabSize
  insertSpaces := true

instance : Inhabited Settings := ⟨standard⟩

def withSource (settings : Settings) (source : String) : Settings :=
  { settings with diagnosticSource := source }

def withMaxProblems (settings : Settings) (limit : Nat) : Settings :=
  { settings with maxProblems := limit }

def withIndentStyle (settings : Settings) (style : IndentStyle) : Settings :=
  { settings with tabSize := style.tabSize, insertSpaces := style.insertSpaces }

def indentStyle (settings : Settings) : IndentStyle :=
  ⟨settings.tabSize, settings.insertSpaces⟩

def policy (settings : Settings) : Diagnose.Policy :=
  ⟨settings.diagnosticSource, settings.maxProblems⟩

end Settings

inductive ChangeKind
  | opened
  | changed
  | closed
  deriving DecidableEq, Repr, Inhabited

def ChangeKind.name : ChangeKind → String
  | .opened => "opened"
  | .changed => "changed"
  | .closed => "closed"

/-- What happened to a document, with its full text; a close needs no text. -/
structure Event where
  uri : String
  text : String
  kind : ChangeKind
  deriving DecidableEq, Repr, Inhabited

structure Workspace where
  settings : Settings
  index : Symbol.Index
  documents : Documents
  deriving Inhabited

namespace Workspace

def empty (settings : Settings) : Workspace :=
  ⟨settings, Symbol.Index.empty, Documents.empty⟩

/-- The document is indexed before it is diagnosed. -/
def update (workspace : Workspace) (uri text : String) : Workspace × Report :=
  let index := workspace.index.reindex uri text
  ({ workspace with index := index, documents := workspace.documents.put uri text },
    ⟨uri, workspace.settings.policy.diagnose index uri text⟩)

def close (workspace : Workspace) (uri : String) : Workspace × Report :=
  ({ workspace with
      index := workspace.index.remove uri, documents := workspace.documents.erase uri },
    ⟨uri, []⟩)

def apply (workspace : Workspace) (event : Event) : Workspace × Report :=
  match event.kind with
  | .opened | .changed => workspace.update event.uri event.text
  | .closed => workspace.close event.uri

/-- The workspace after a sequence of events. -/
def run (workspace : Workspace) (events : List Event) : Workspace :=
  events.foldl (fun workspace event ↦ (workspace.apply event).1) workspace

def hover (workspace : Workspace) (uri : String) (position : Position) : Option Hover :=
  Cursor.hover workspace.index workspace.documents uri position

def definitions (workspace : Workspace) (uri : String) (position : Position) : List Location :=
  Cursor.definitions workspace.index workspace.documents uri position

def references (workspace : Workspace) (uri : String) (position : Position) : List Location :=
  Cursor.references workspace.documents uri position

def outline (workspace : Workspace) (uri : String) : List OutlineItem :=
  ScriptSense.outline workspace.index uri

def completions (workspace : Workspace) (uri : String) : List CompletionItem :=
  ScriptSense.completions workspace.index workspace.documents uri

/-- The edit that indents an open document. -/
def format (workspace : Workspace) (uri : String) (style : IndentStyle) : Option Edit :=
  (workspace.documents.get? uri).map (Layout.format · style)

/-- The edit that indents an open document in the style of the settings. -/
def formatBySettings (workspace : Workspace) (uri : String) : Option Edit :=
  workspace.format uri workspace.settings.indentStyle

end Workspace

end ScriptSense
