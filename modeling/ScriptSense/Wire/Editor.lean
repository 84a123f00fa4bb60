import ScriptSense.Uri.Parse
import ScriptSense.Wire.Types

/-!
# The form that editors expect

Answers to an editor follow the Language Server Protocol: a column is a character, kinds and
severities are numbers, texts for people are marked as Markdown, and URIs are in their normal form,
so that an answer about a document whose name is no URI is none.
-/

namespace ScriptSense.Editor

def position (position : Position) : Json :=
  .object [("line", .ofNat position.line), ("character", .ofNat position.column)]

def range (range : Range) : Json :=
  .object [("start", position range.start), ("end", position range.stop)]

def severity : Severity → Json
  | .error => .ofNat 1
  | .warning => .ofNat 2

def markdown (text : String) : Json :=
  .object [("kind", .string "markdown"), ("value", .string text)]

def diagnostic (diagnostic : Diagnostic) : Json :=
  .object [("range", range diagnostic.range), ("severity", severity diagnostic.severity),
    ("source", .string diagnostic.source), ("message", .string diagnostic.message)]

def report (report : Report) : Except String Json := do
  let uri ← Uri.normalize report.uri
  return .object [("uri", .string uri), ("diagnostics", .array (report.diagnostics.map diagnostic))]

def location (location : Location) : Except String Json := do
  let uri ← Uri.normalize location.uri
  return .object [("uri", .string uri), ("range", range location.range)]

def hover (hover : Hover) : Json :=
  .object (("contents", markdown hover.contents) ::
    match hover.range with
    | some stretch => [("range", range stretch)]
    | none => [])

def symbolKind : SymbolKind → Json
  | .function => .ofNat 12
  | .variable => .ofNat 13

def outlineItem (item : OutlineItem) : Except String Json := do
  let place ← location item.location
  return .object [("name", .string item.name), ("kind", symbolKind item.kind), ("location", place)]

def completionKind : CompletionKind → Json
  | .function => .ofNat 3
  | .variable => .ofNat 6
  | .keyword => .ofNat 14
  | .constant => .ofNat 21

/-- A member for a text that may be absent. -/
def member (key : String) (write : String → Json) (text : Option String) :
    List (String × Json) :=
  match text with
  | some text => [(key, write text)]
  | none => []

def completionItem (item : CompletionItem) : Json :=
  .object ([("label", .string item.label), ("kind", completionKind item.kind)] ++
    member "detail" .string item.detail ++ member "documentation" markdown item.documentation ++
      member "insertText" .string item.insertText)

def edit (edit : Edit) : Json :=
  .object [("range", range edit.range), ("newText", .string edit.newText)]

end ScriptSense.Editor
