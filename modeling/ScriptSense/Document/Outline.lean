import ScriptSense.Cursor
import ScriptSense.Script.Reserved

/-!
# Outline and completion

The outline of a document lists its declarations in their order. Completion offers every reserved
name, and then each name that the document declares, once.
-/

namespace ScriptSense

structure OutlineItem where
  name : String
  kind : SymbolKind
  location : Location
  deriving DecidableEq, Repr, Inhabited

inductive CompletionKind
  | keyword
  | function
  | constant
  | variable
  deriving DecidableEq, Repr, Inhabited

def CompletionKind.name : CompletionKind → String
  | .keyword => "keyword"
  | .function => "function"
  | .constant => "constant"
  | .variable => "variable"

/-- A name to complete with; `insertText` is given when it differs from the label. -/
structure CompletionItem where
  label : String
  kind : CompletionKind
  detail : Option String
  documentation : Option String
  insertText : Option String
  deriving DecidableEq, Repr, Inhabited

def Occurrence.outlineItem (occurrence : Occurrence) : OutlineItem :=
  ⟨occurrence.name, occurrence.kind, occurrence.location⟩

def Script.Category.completionKind : Script.Category → CompletionKind
  | .keyword => .keyword
  | .builtin => .function
  | .constant => .constant

def SymbolKind.completionKind : SymbolKind → CompletionKind
  | .variable => .variable
  | .function => .function

def Script.Reserved.completionItem (reserved : Script.Reserved) : CompletionItem where
  label := reserved.name
  kind := reserved.category.completionKind
  detail := some reserved.detail
  documentation := some reserved.description
  insertText := reserved.insertText

def Occurrence.completionItem (occurrence : Occurrence) : CompletionItem where
  label := occurrence.name
  kind := occurrence.kind.completionKind
  detail := some occurrence.kind.name
  documentation := occurrence.doc
  insertText := none

def outline (index : Symbol.Index) (uri : String) : List OutlineItem :=
  (index.document uri).map Occurrence.outlineItem

/-- The first occurrence of each name that is not in `seen`. -/
def firstOfEach (seen : List String) : List Occurrence → List Occurrence
  | [] => []
  | occurrence :: rest =>
    if seen.contains occurrence.name then firstOfEach seen rest
    else occurrence :: firstOfEach (occurrence.name :: seen) rest

/-- Nothing is offered in a document that is not open. -/
def completions (index : Symbol.Index) (documents : Documents) (uri : String) :
    List CompletionItem :=
  if documents.contains uri then
    Script.reservedNames.map Script.Reserved.completionItem ++
      (firstOfEach (Script.reservedNames.map Script.Reserved.name) (index.document uri)).map
        Occurrence.completionItem
  else []

end ScriptSense
