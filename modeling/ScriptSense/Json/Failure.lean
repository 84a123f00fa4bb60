import ScriptSense.Json.Basic
import ScriptSense.Text.Column
import ScriptSense.Text.Quoted

/-!
# What can go wrong in reading JSON

A fault is a cause: of syntax, or of a value that does not fit the type it is read as. A failure is
a fault at a place of the text. The place is kept as the input that was not yet read, and told as a
line, counted from one, and the number of bytes before it on that line.
-/

namespace ScriptSense.Json

/-- What stands in the place of a value of another type. -/
inductive Found
  | null
  | bool (value : Bool)
  | number (value : Number)
  | string (value : String)
  | sequence
  | map
  deriving DecidableEq, Repr, Inhabited

inductive Fault
  | endOfList
  | endOfObject
  | endOfString
  | endOfValue
  | expectedColon
  | expectedCommaOrBracket
  | expectedCommaOrBrace
  | expectedIdent
  | expectedValue
  | invalidEscape
  | invalidNumber
  | numberOutOfRange
  | controlCharacter
  | keyNotString
  | loneSurrogate
  | trailingComma
  | trailingCharacters
  | endOfSurrogates
  | invalidType (found : Found) (expected : String)
  | invalidValue (found : Found) (expected : String)
  | invalidLength (length : Nat) (expected : String)
  | unknownVariant (name : String) (variants : List String)
  | missingField (key : String)
  | duplicateField (key : String)
  deriving DecidableEq, Repr, Inhabited

def Found.text : Found → String
  | .null => "null"
  | .bool value => "boolean `" ++ (if value then "true" else "false") ++ "`"
  | .number (.integer value) => "integer `" ++ toString value ++ "`"
  | .number value => "floating point `" ++ value.text ++ "`"
  | .string value => "string " ++ Text.quoted value
  | .sequence => "sequence"
  | .map => "map"

def found : Json → Found
  | .null => .null
  | .bool value => .bool value
  | .number value => .number value
  | .string value => .string value
  | .array _ => .sequence
  | .object _ => .map

def inBackquotes (name : String) : String :=
  "`" ++ name ++ "`"

/-- The names that would have been right: one, either of two, or one of many. -/
def alternatives : List String → String
  | [name] => inBackquotes name
  | [first, second] => inBackquotes first ++ " or " ++ inBackquotes second
  | names => "one of " ++ String.intercalate ", " (names.map inBackquotes)

def Fault.message : Fault → String
  | .endOfList => "EOF while parsing a list"
  | .endOfObject => "EOF while parsing an object"
  | .endOfString => "EOF while parsing a string"
  | .endOfValue => "EOF while parsing a value"
  | .expectedColon => "expected `:`"
  | .expectedCommaOrBracket => "expected `,` or `]`"
  | .expectedCommaOrBrace => "expected `,` or `\x7d`"
  | .expectedIdent => "expected ident"
  | .expectedValue => "expected value"
  | .invalidEscape => "invalid escape"
  | .invalidNumber => "invalid number"
  | .numberOutOfRange => "number out of range"
  | .controlCharacter => "control character (\\u0000-\\u001F) found while parsing a string"
  | .keyNotString => "key must be a string"
  | .loneSurrogate => "lone leading surrogate in hex escape"
  | .trailingComma => "trailing comma"
  | .trailingCharacters => "trailing characters"
  | .endOfSurrogates => "unexpected end of hex escape"
  | .invalidType found expected => "invalid type: " ++ found.text ++ ", expected " ++ expected
  | .invalidValue found expected => "invalid value: " ++ found.text ++ ", expected " ++ expected
  | .invalidLength length expected =>
    "invalid length " ++ Nat.repr length ++ ", expected " ++ expected
  | .unknownVariant name variants =>
    "unknown variant " ++ inBackquotes name ++ ", expected " ++ alternatives variants
  | .missingField key => "missing field " ++ inBackquotes key
  | .duplicateField key => "duplicate field " ++ inBackquotes key

/-- A fault `ahead` bytes after the start of `rest`, the input that was not yet read. -/
structure Failure where
  fault : Fault
  rest : List Char
  ahead : Nat
  deriving DecidableEq, Repr

/-- Reads a value from the start of the input and gives back what follows it. -/
abbrev Reader (α : Type) := List Char → Except Failure (α × List Char)

/-- Fails where the unread input starts. -/
def failAt {α : Type} (fault : Fault) (rest : List Char) : Except Failure α :=
  .error ⟨fault, rest, 0⟩

/-- Fails at the next byte of the unread input, or at the end if there is none. -/
def failNext {α : Type} (fault : Fault) (rest : List Char) : Except Failure α :=
  .error ⟨fault, rest, 1⟩

/-- The line and the bytes before the place on it, after `count` more bytes of `text`. -/
def advance (line column count : Nat) : List Char → Nat × Nat
  | [] => (line, column)
  | c :: rest =>
    if count < c.utf8Size then (line, column + count)
    else if c = '\n' then advance (line + 1) 0 (count - 1) rest
    else advance line (column + c.utf8Size) (count - c.utf8Size) rest

/-- The line and column of a failure in reading `text`. -/
def Failure.place (failure : Failure) (text : List Char) : Nat × Nat :=
  advance 1 0 (Text.byteSize text - Text.byteSize failure.rest + failure.ahead) text

def Failure.message (failure : Failure) (text : String) : String :=
  let (line, column) := failure.place text.toList
  failure.fault.message ++ " at line " ++ Nat.repr line ++ " column " ++ Nat.repr column

end ScriptSense.Json
