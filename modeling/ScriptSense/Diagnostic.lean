import ScriptSense.Script.Reserved
import ScriptSense.Symbol.Index
import ScriptSense.Text.Column
import ScriptSense.Text.Word

/-!
# Diagnostics

A rule finds a problem at a range. What is told about the problem, and how severe it is, depends on
the problem alone; the report adds the name of the tool.

Each rule looks at one line, and the rule for conditionals also at the lines after it. A document's
findings come line by line, and on a line in the order of the rules. Only so many of them are
reported as the limit allows.
-/

namespace ScriptSense

inductive Severity
  | error
  | warning
  deriving DecidableEq, Repr, Inhabited

def Severity.name : Severity → String
  | .error => "error"
  | .warning => "warning"

/-- What can be wrong with a line. -/
inductive Problem
  | bareDeclaration
  | missingClosing
  | missingOpening
  | danglingConditional
  | undeclared (name : String)
  deriving DecidableEq, Repr, Inhabited

namespace Problem

def severity : Problem → Severity
  | .bareDeclaration | .missingClosing | .missingOpening => .error
  | .danglingConditional | .undeclared _ => .warning

def message : Problem → String
  | .bareDeclaration => "declaration requires '=' and an initial value"
  | .missingClosing => "missing closing ')'"
  | .missingOpening => "missing opening '('"
  | .danglingConditional => "conditional requires a brace block or terminator keyword"
  | .undeclared name => "identifier '" ++ name ++ "' appears undeclared in this file"

end Problem

/-- A problem and where it is. -/
structure Finding where
  range : Range
  problem : Problem
  deriving DecidableEq, Repr, Inhabited

/-- A finding in words; `source` names the tool that reports it. -/
structure Diagnostic where
  severity : Severity
  range : Range
  message : String
  source : String
  deriving DecidableEq, Repr, Inhabited

def Finding.toDiagnostic (source : String) (finding : Finding) : Diagnostic where
  severity := finding.problem.severity
  range := finding.range
  message := finding.problem.message
  source := source

/-- The diagnostics of one document. -/
structure Report where
  uri : String
  diagnostics : List Diagnostic
  deriving DecidableEq, Repr, Inhabited

namespace Report

def count (report : Report) (severity : Severity) : Nat :=
  report.diagnostics.countP (·.severity == severity)

def hasErrors (report : Report) : Bool :=
  0 < report.count .error

end Report

namespace Diagnose

open Text Script

def bareDeclarations (number : Nat) (line : List Char) : List Finding :=
  if isBareDeclaration line then [⟨Range.wholeLine number line, .bareDeclaration⟩] else []

/-- The first surplus closing parenthesis, or the last surplus opening one, is pointed at. -/
def unbalancedParentheses (number : Nat) (line : List Char) : List Finding :=
  if line.count ')' < line.count '(' then
    let offset := byteSize (dropEndWhile (· != '(') line).dropLast
    [⟨Range.ofSlice number line offset 1, .missingClosing⟩]
  else if line.count '(' < line.count ')' then
    let offset := byteSize (line.takeWhile (· != ')'))
    [⟨Range.ofSlice number line offset 1, .missingOpening⟩]
  else []

/-- Whether a conditional is closed before the next one, or the next function, begins. -/
def isClosedBy : List (List Char) → Bool
  | [] => false
  | line :: rest => endsConditional line || (!startsBlock line && isClosedBy rest)

def danglingConditionals (number : Nat) (line : List Char) (rest : List (List Char)) :
    List Finding :=
  if isOpenConditional line && !isClosedBy rest then
    [⟨Range.wholeLine number line, .danglingConditional⟩]
  else []

/-- Identifiers outside literals that are neither reserved nor declared. -/
def undeclaredIdentifiers (declared : String → Bool) (number : Nat) (line : List Char) :
    List Finding :=
  if startsDeclaration line then []
  else
    ((identifiers line).filter fun word ↦
      !inLiteral line word.offset && !isReserved word.text && !declared word.text).map fun word ↦
        ⟨Range.ofSlice number line word.offset word.chars.length, .undeclared word.text⟩

def lineFindings (declared : String → Bool) (number : Nat) (line : List Char)
    (rest : List (List Char)) : List Finding :=
  if isExempt line then []
  else
    bareDeclarations number line ++ unbalancedParentheses number line ++
      danglingConditionals number line rest ++ undeclaredIdentifiers declared number line

/-- The findings of `lines`, of which the first has the number `number`. -/
def findingsFrom (declared : String → Bool) (number : Nat) : List (List Char) → List Finding
  | [] => []
  | line :: rest =>
    lineFindings declared number line rest ++ findingsFrom declared (number + 1) rest

/-- All that is wrong with a document, whose declarations the index holds under `uri`. -/
def findings (index : Symbol.Index) (uri text : String) : List Finding :=
  findingsFrom (index.declares · uri) 0 (lines text)

/-- Who reports, and how many diagnostics a document may have. -/
structure Policy where
  source : String
  limit : Nat
  deriving DecidableEq, Repr, Inhabited

def defaultSource : String := "inmu"

def defaultLimit : Nat := 1000

def Policy.standard : Policy := ⟨defaultSource, defaultLimit⟩

def Policy.diagnose (policy : Policy) (index : Symbol.Index) (uri text : String) :
    List Diagnostic :=
  ((findings index uri text).take policy.limit).map (Finding.toDiagnostic policy.source)

end Diagnose

end ScriptSense
