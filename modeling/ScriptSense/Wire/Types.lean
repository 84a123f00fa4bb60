import ScriptSense.Wire.Record
import ScriptSense.Workspace

/-!
# Codecs of the library's types

Each type that crosses the border of the program has one codec. The keys, and the names that
messages use for the types, are part of the format.
-/

namespace ScriptSense.Wire

open Codec

def symbolKind : Codec SymbolKind :=
  choice ⟨[.variable, .function], SymbolKind.name⟩

def severity : Codec Severity :=
  choice ⟨[.error, .warning], Severity.name⟩

def changeKind : Codec ChangeKind :=
  choice ⟨[.opened, .changed, .closed], ChangeKind.name⟩

def completionKind : Codec CompletionKind :=
  choice ⟨[.keyword, .function, .constant, .variable], CompletionKind.name⟩

def category : Codec Script.Category :=
  choice ⟨[.keyword, .builtin, .constant], Script.Category.name⟩

def positionRecord : Record Position where
  name := "struct Position"
  types := [Nat, Nat]
  fields := .cons (.required "line" word32) (.cons (.required "column" word32) .nil)
  make := fun (line, column, ()) ↦ ⟨line, column⟩
  split position := (position.line, position.column, ())

def position : Codec Position := positionRecord.codec

def rangeRecord : Record Range where
  name := "struct TextRange"
  types := [Position, Position]
  fields := .cons (.required "start" position) (.cons (.required "end" position) .nil)
  make := fun (start, stop, ()) ↦ ⟨start, stop⟩
  split range := (range.start, range.stop, ())

def range : Codec Range := rangeRecord.codec

def occurrenceRecord : Record Occurrence where
  name := "struct Occurrence"
  types := [String, SymbolKind, String, Nat, Nat, Option String]
  fields :=
    .cons (.required "name" text) (.cons (.required "kind" symbolKind)
      (.cons (.required "uri" text) (.cons (.required "line" word32)
        (.cons (.required "column" word32) (.cons (.optional "doc_comment" text) .nil)))))
  make := fun (name, kind, uri, line, column, doc, ()) ↦ ⟨name, kind, uri, line, column, doc⟩
  split occurrence :=
    (occurrence.name, occurrence.kind, occurrence.uri, occurrence.line, occurrence.column,
      occurrence.doc, ())

def occurrence : Codec Occurrence := occurrenceRecord.codec

def diagnosticRecord : Record Diagnostic where
  name := "struct Diagnostic"
  types := [Severity, Range, String, String]
  fields :=
    .cons (.required "severity" severity) (.cons (.required "range" range)
      (.cons (.required "message" text) (.cons (.required "source" text) .nil)))
  make := fun (severity, range, message, source, ()) ↦ ⟨severity, range, message, source⟩
  split diagnostic :=
    (diagnostic.severity, diagnostic.range, diagnostic.message, diagnostic.source, ())

def diagnostic : Codec Diagnostic := diagnosticRecord.codec

def reportRecord : Record Report where
  name := "struct DiagnosticsReport"
  types := [String, List Diagnostic]
  fields := .cons (.required "uri" text) (.cons (.required "diagnostics" diagnostic.list) .nil)
  make := fun (uri, diagnostics, ()) ↦ ⟨uri, diagnostics⟩
  split report := (report.uri, report.diagnostics, ())

def report : Codec Report := reportRecord.codec

def eventRecord : Record Event where
  name := "struct DocumentEvent"
  types := [String, String, ChangeKind]
  fields :=
    .cons (.required "uri" text) (.cons (.required "text" text)
      (.cons (.required "kind" changeKind) .nil))
  make := fun (uri, text, kind, ()) ↦ ⟨uri, text, kind⟩
  split event := (event.uri, event.text, event.kind, ())

def event : Codec Event := eventRecord.codec

def indentStyleRecord : Record IndentStyle where
  name := "struct FormattingOptions"
  types := [Nat, Bool]
  fields := .cons (.required "tabSize" word32) (.cons (.required "insertSpaces" bool) .nil)
  make := fun (tabSize, insertSpaces, ()) ↦ ⟨tabSize, insertSpaces⟩
  split style := (style.tabSize, style.insertSpaces, ())

def indentStyle : Codec IndentStyle := indentStyleRecord.codec

def editRecord : Record Edit where
  name := "struct TextEdit"
  types := [Range, String]
  fields := .cons (.required "range" range) (.cons (.required "new_text" text) .nil)
  make := fun (range, newText, ()) ↦ ⟨range, newText⟩
  split edit := (edit.range, edit.newText, ())

def edit : Codec Edit := editRecord.codec

def locationRecord : Record Location where
  name := "struct Location"
  types := [String, Range]
  fields := .cons (.required "uri" text) (.cons (.required "range" range) .nil)
  make := fun (uri, range, ()) ↦ ⟨uri, range⟩
  split location := (location.uri, location.range, ())

def location : Codec Location := locationRecord.codec

def hoverRecord : Record Hover where
  name := "struct Hover"
  types := [String, Option Range]
  fields := .cons (.required "contents" text) (.cons (.optional "range" range) .nil)
  make := fun (contents, range, ()) ↦ ⟨contents, range⟩
  split hover := (hover.contents, hover.range, ())

def hover : Codec Hover := hoverRecord.codec

def outlineItemRecord : Record OutlineItem where
  name := "struct SymbolDescriptor"
  types := [String, SymbolKind, Location]
  fields :=
    .cons (.required "name" text) (.cons (.required "kind" symbolKind)
      (.cons (.required "location" location) .nil))
  make := fun (name, kind, location, ()) ↦ ⟨name, kind, location⟩
  split item := (item.name, item.kind, item.location, ())

def outlineItem : Codec OutlineItem := outlineItemRecord.codec

def completionItemRecord : Record CompletionItem where
  name := "struct CompletionItem"
  types := [String, CompletionKind, Option String, Option String, Option String]
  fields :=
    .cons (.required "label" text) (.cons (.required "kind" completionKind)
      (.cons (.optional "detail" text) (.cons (.optional "documentation" text)
        (.cons (.optional "insert_text" text) .nil))))
  make := fun (label, kind, detail, documentation, insertText, ()) ↦
    ⟨label, kind, detail, documentation, insertText⟩
  split item := (item.label, item.kind, item.detail, item.documentation, item.insertText, ())

def completionItem : Codec CompletionItem := completionItemRecord.codec

/-- Each of the settings has a default. -/
def settingsRecord : Record Settings where
  name := "struct ServiceConfig"
  types := [String, Nat, Nat, Bool]
  fields :=
    .cons (.withDefault "diagnosticSource" text Settings.standard.diagnosticSource)
      (.cons (.withDefault "maxNumberOfProblems" word64 Settings.standard.maxProblems)
        (.cons (.withDefault "tabSize" word32 Settings.standard.tabSize)
          (.cons (.withDefault "insertSpaces" bool Settings.standard.insertSpaces) .nil)))
  make := fun (source, maxProblems, tabSize, insertSpaces, ()) ↦
    ⟨source, maxProblems, tabSize, insertSpaces⟩
  split settings :=
    (settings.diagnosticSource, settings.maxProblems, settings.tabSize, settings.insertSpaces, ())

def settings : Codec Settings := settingsRecord.codec

/-- Reads settings from a text. -/
def settingsOfText (text : String) : Except String Settings :=
  (Json.readAll settings.read text).mapError (·.message text)

/-- Reads settings from a JSON value; null stands for the defaults. -/
def settingsOfJson (value : Json) : Except String Settings :=
  match value with
  | .null => .ok Settings.standard
  | value => (settings.ofJson value).mapError Json.Fault.message

/-- How a fault in the settings is told. -/
def invalidSettings (fault : String) : String :=
  "Invalid configuration: " ++ fault

end ScriptSense.Wire
