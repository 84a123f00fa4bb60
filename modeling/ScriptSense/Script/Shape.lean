import ScriptSense.Text.Line
import ScriptSense.Text.Word

/-!
# The shape of a line

A script is recognised line by line, without a grammar that spans lines. A line is blank, a line
comment, the opening of a documentation block, a declaration of a variable or a function, or some
other statement. The other recognisers here are independent of that division: the diagnostics ask
them one by one.
-/

namespace ScriptSense

inductive SymbolKind
  | variable
  | function
  deriving DecidableEq, Repr, Inhabited

def SymbolKind.name : SymbolKind → String
  | .variable => "variable"
  | .function => "function"

namespace Script

open Text

inductive Shape
  | blank
  | comment
  | docOpening
  | declaration (name : String) (kind : SymbolKind)
  | statement
  deriving DecidableEq, Repr, Inhabited

def docOpener : List Char := ['/', '*', '*']

def docCloser : List Char := ['*', '/']

def variableKeyword : List Char := ['l', 'e', 't']

def functionKeyword : List Char := ['f', 'n']

def conditionalKeyword : List Char := ['i', 'f']

def conditionalEnd : List Char := ['e', 'n', 'd', 'i', 'f']

/-- What follows `keyword` and the blank characters after it, of which there is at least one. -/
def afterKeyword (keyword line : List Char) : Option (List Char) :=
  match keyword.isPrefixOf? (trimStart line) with
  | some (c :: rest) => if isBlank c then some (trimStart rest) else none
  | _ => none

/-- A non-empty run of word characters that does not start with a digit. -/
def isName (run : List Char) : Bool :=
  match run with
  | [] => false
  | c :: _ => !c.isDigit && run.all isWordChar

/-- The name in a line that reads `keyword name mark …`, with blank characters around the name. -/
def declaredName (keyword : List Char) (mark : Char) (line : List Char) : Option (List Char) :=
  match afterKeyword keyword line with
  | none => none
  | some rest =>
    let name := rest.takeWhile isWordChar
    if isName name && (trimStart (rest.dropWhile isWordChar)).head? == some mark then some name
    else none

def isComment (line : List Char) : Bool :=
  ['#'].isPrefixOf (trim line) || ['/', '/'].isPrefixOf (trim line)

def opensDoc (line : List Char) : Bool :=
  docOpener.isPrefixOf (trim line)

def closesDoc (line : List Char) : Bool :=
  docCloser.isSuffixOf (trim line)

def shape (line : List Char) : Shape :=
  if isBlankLine line then .blank
  else if isComment line then .comment
  else if opensDoc line then .docOpening
  else
    match declaredName variableKeyword '=' line with
    | some name => .declaration (String.ofList name) .variable
    | none =>
      match declaredName functionKeyword '(' line with
      | some name => .declaration (String.ofList name) .function
      | none => .statement

/-- A variable declaration that ends after the name, with no value given. -/
def isBareDeclaration (line : List Char) : Bool :=
  match afterKeyword variableKeyword line with
  | none => false
  | some rest =>
    (rest.head?.any isWordChar && isBlankLine (rest.dropWhile isWordChar)) && !line.contains '='

/-- A line whose first word is `keyword`, with a space right after it. -/
def startsWithWord (keyword line : List Char) : Bool :=
  (keyword ++ [' ']).isPrefixOf (trim line)

def startsDeclaration (line : List Char) : Bool :=
  startsWithWord variableKeyword line

/-- A conditional with no brace on its own line. -/
def isOpenConditional (line : List Char) : Bool :=
  startsWithWord conditionalKeyword line && !(trim line).contains '{'

def endsConditional (line : List Char) : Bool :=
  trim line == conditionalEnd

def startsBlock (line : List Char) : Bool :=
  startsWithWord conditionalKeyword line || startsWithWord functionKeyword line

/-- Lines on which no diagnostic is ever reported. -/
def isExempt (line : List Char) : Bool :=
  shape line == .blank || shape line == .comment

end Script

end ScriptSense
