import ScriptSense.Document.Store
import ScriptSense.Script.Reserved
import ScriptSense.Symbol.Index
import ScriptSense.Text.Word

/-!
# The word under the cursor

A position in an open document points at the word that touches it, if there is one. A column past
the end of its line counts as the end. The definitions of the word are its declarations in all
documents. Its references are the places where it stands as a word of its own in any open document;
comments and literals count too.

A reserved name has a fixed description. Any other name is described by one of its declarations: the
first in the same document if there is one, otherwise the first of all.
-/

namespace ScriptSense

/-- A word of a document and its stretch. -/
structure Target where
  word : String
  range : Range
  deriving DecidableEq, Repr, Inhabited

def target? (documents : Documents) (uri : String) (position : Position) : Option Target :=
  match documents.line? uri position.line with
  | none => none
  | some line =>
    (Text.wordAt line position.column).map fun word ↦
      ⟨word.text, Range.ofSlice position.line line word.offset word.chars.length⟩

/-- A stretch of a document. -/
structure Location where
  uri : String
  range : Range
  deriving DecidableEq, Repr, Inhabited

def Occurrence.location (occurrence : Occurrence) : Location :=
  ⟨occurrence.uri, occurrence.range⟩

/-- A text in Markdown about a stretch of a document. -/
structure Hover where
  contents : String
  range : Option Range
  deriving DecidableEq, Repr, Inhabited

/-- A declaration in words: its documentation, or else the number of its line. -/
def Occurrence.describe (occurrence : Occurrence) : String :=
  let body :=
    match occurrence.doc with
    | some doc => doc
    | none => "Defined at line " ++ Nat.repr (occurrence.line + 1)
  "**(" ++ occurrence.kind.name ++ ") " ++ occurrence.name ++ "**\n\n" ++ body

namespace Cursor

open Text

def definitions (index : Symbol.Index) (documents : Documents) (uri : String)
    (position : Position) : List Location :=
  match target? documents uri position with
  | none => []
  | some target => (index.lookup target.word).map Occurrence.location

/-- The places of a word on one line. -/
def lineReferences (uri word : String) (line : List Char) (number : Nat) : List Location :=
  (wordMatches line word).map fun offset ↦
    ⟨uri, Range.ofSlice number line offset (byteSize word.toList)⟩

/-- The places of a word in one text. -/
def textReferences (word : String) (entry : String × String) : List Location :=
  (lines entry.2).zipIdx.flatMap fun (line, number) ↦ lineReferences entry.1 word line number

def references (documents : Documents) (uri : String) (position : Position) : List Location :=
  match target? documents uri position with
  | none => []
  | some target => documents.entries.flatMap (textReferences target.word)

/-- The declaration that describes `name` to a reader of the document `uri`. -/
def bestOccurrence? (index : Symbol.Index) (name uri : String) : Option Occurrence :=
  ((index.lookup name).find? (·.uri == uri)).or (index.lookup name).head?

def describe? (index : Symbol.Index) (name uri : String) : Option String :=
  match Script.reserved? name with
  | some reserved => some reserved.description
  | none => (bestOccurrence? index name uri).map Occurrence.describe

def hover (index : Symbol.Index) (documents : Documents) (uri : String) (position : Position) :
    Option Hover :=
  match target? documents uri position with
  | none => none
  | some target =>
    (describe? index target.word uri).map fun contents ↦ ⟨contents, some target.range⟩

end Cursor

end ScriptSense
