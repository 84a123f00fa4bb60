import ScriptSense.Script.DocBlock
import ScriptSense.Script.Shape

/-!
# The symbol index

A document is scanned from its first line to its last. The text of a documentation block waits for
the next declaration; blank lines and line comments leave it waiting, and any other statement
discards it.

The index groups the occurrences of all documents by name. Names stand in the order in which they
first came, the occurrences of a name in the order in which they were recorded, and a name without
occurrences is not kept. The occurrences of a document are removed together before new ones are
recorded for it.
-/

namespace ScriptSense

/-- One declaration of `name`, in the document `uri`. -/
structure Occurrence where
  name : String
  kind : SymbolKind
  uri : String
  line : Nat
  column : Nat
  doc : Option String
  deriving DecidableEq, Repr, Inhabited

/-- The stretch of the declared name. -/
def Occurrence.range (occurrence : Occurrence) : Range :=
  Range.onLine occurrence.line occurrence.column
    (occurrence.column + Text.width occurrence.name.toList)

namespace Symbol

open Text Script

/-- The byte at which `name` first stands on a line, also inside a longer word. -/
def firstOffset (name : List Char) : List Char → Nat
  | [] => 0
  | c :: rest =>
    if name.isPrefixOf (c :: rest) then 0 else c.utf8Size + firstOffset name rest

/-- The column of the first place where `name` can be read on a line. -/
def nameColumn (line : List Char) (name : String) : Nat :=
  columnAt line (firstOffset name.toList line)

/-- The declarations of `lines`, of which the first has the number `number`. -/
def scanFrom (uri : String) (number : Nat) (pending : Option String) :
    List (List Char) → List Occurrence
  | [] => []
  | line :: rest =>
    match shape line with
    | .docOpening =>
      let block := (DocBlock.split (line :: rest)).1
      scanFrom uri (number + block.length) (DocBlock.pending (DocBlock.content block))
        (DocBlock.split (line :: rest)).2
    | .declaration name kind =>
      ⟨name, kind, uri, number, nameColumn line name, pending⟩ ::
        scanFrom uri (number + 1) none rest
    | .statement => scanFrom uri (number + 1) none rest
    | .blank | .comment => scanFrom uri (number + 1) pending rest
termination_by lines => lines.length
decreasing_by
  · exact DocBlock.length_split_cons line rest
  all_goals exact Nat.lt_succ_self _

def scan (uri text : String) : List Occurrence :=
  scanFrom uri 0 none (lines text)

/-- A name and its occurrences, the oldest first. -/
structure Entry where
  name : String
  occurrences : List Occurrence
  deriving DecidableEq, Repr, Inhabited

structure Index where
  entries : List Entry
  deriving DecidableEq, Repr, Inhabited

/-- The order of a document's outline: by line, then by column, then by name. -/
def precedes (a b : Occurrence) : Bool :=
  if a.line ≠ b.line then a.line < b.line
  else if a.column ≠ b.column then a.column < b.column
  else a.name ≤ b.name

namespace Index

def empty : Index := ⟨[]⟩

def insertInto (occurrence : Occurrence) : List Entry → List Entry
  | [] => [⟨occurrence.name, [occurrence]⟩]
  | entry :: rest =>
    if entry.name = occurrence.name then
      ⟨entry.name, entry.occurrences ++ [occurrence]⟩ :: rest
    else entry :: insertInto occurrence rest

/-- Records an occurrence after the ones that its name already has. -/
def insert (index : Index) (occurrence : Occurrence) : Index :=
  ⟨insertInto occurrence index.entries⟩

/-- An entry without the occurrences from `uri`, unless none would be left. -/
def withoutDocument (uri : String) (entry : Entry) : Option Entry :=
  match entry.occurrences.filter (·.uri != uri) with
  | [] => none
  | kept => some ⟨entry.name, kept⟩

/-- Takes out every occurrence that came from `uri`. -/
def remove (index : Index) (uri : String) : Index :=
  ⟨index.entries.filterMap (withoutDocument uri)⟩

/-- The occurrences of all names. -/
def occurrences (index : Index) : List Occurrence :=
  index.entries.flatMap Entry.occurrences

/-- The number of occurrences that removing `uri` takes out. -/
def removalCount (index : Index) (uri : String) : Nat :=
  index.occurrences.countP (·.uri == uri)

/-- Records `occurrences` in place of everything that came from `uri`. -/
def replace (index : Index) (uri : String) (occurrences : List Occurrence) : Index :=
  occurrences.foldl insert (index.remove uri)

/-- Brings the occurrences of `uri` up to date with its text. -/
def reindex (index : Index) (uri text : String) : Index :=
  index.replace uri (scan uri text)

/-- The occurrences of a name, the oldest first. -/
def lookup (index : Index) (name : String) : List Occurrence :=
  match index.entries.find? (·.name == name) with
  | some entry => entry.occurrences
  | none => []

/-- Whether the document `uri` declares `name`. -/
def declares (index : Index) (name uri : String) : Bool :=
  (index.lookup name).any (·.uri == uri)

/-- The occurrences from `uri`, in the order of an outline. -/
def document (index : Index) (uri : String) : List Occurrence :=
  (index.occurrences.filter (·.uri == uri)).mergeSort precedes

def names (index : Index) : List String :=
  index.entries.map Entry.name

/-- The number of distinct names. -/
def size (index : Index) : Nat :=
  index.entries.length

def isEmpty (index : Index) : Bool :=
  index.entries.isEmpty

/-- The number of occurrences of all names together. -/
def occurrenceCount (index : Index) : Nat :=
  index.occurrences.length

end Index

end Symbol

end ScriptSense
