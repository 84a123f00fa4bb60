import ScriptSense.Json.Binary64

/-!
# JSON values

A number is an integer of at most 64 bits or a floating number, and the two are kept apart: `1` is
an integer, while `1.0`, `1e0` and `-0` are floating. The members of an object are kept in the order
in which they are written or, in an object that was read, in the order of their keys.

A value is written on one line without space, or spread over lines with two spaces for each level.
Strings escape the quote, the backslash and the control characters and leave all else as it is.
-/

namespace ScriptSense

/-- A floating number is its sign, its leading digits, and the power of ten of the last of them. -/
inductive Json.Number
  | integer (value : Int)
  | floating (negative : Bool) (digits : Nat) (power : Int)
  deriving DecidableEq, Repr, Inhabited

inductive Json
  | null
  | bool (value : Bool)
  | number (value : Json.Number)
  | string (value : String)
  | array (items : List Json)
  | object (members : List (String × Json))
  deriving Repr, Inhabited

namespace Json

/-- The double that a floating number stands for, without its sign. -/
def Number.magnitude? (digits : Nat) (power : Int) : Option Binary64 :=
  (Binary64.ofNat digits).bind (·.scale power)

def Number.text : Number → String
  | .integer value => toString value
  | .floating negative digits power =>
    let magnitude := ((Number.magnitude? digits power).map (·.text)).getD "0.0"
    if negative then "-" ++ magnitude else magnitude

def ofNat (n : Nat) : Json :=
  .number (.integer n)

/-- A text, or null in its absence. -/
def ofText? (text : Option String) : Json :=
  match text with
  | some text => .string text
  | none => .null

/-- Puts a member among members in the order of their keys, in place of one with the same key. -/
def insertMember (key : String) (value : Json) : List (String × Json) → List (String × Json)
  | [] => [(key, value)]
  | member :: rest =>
    if key < member.1 then (key, value) :: member :: rest
    else if key = member.1 then (key, value) :: rest
    else member :: insertMember key value rest

/-- The value of the first member with a key. -/
def member? (key : String) : Json → Option Json
  | .object members => (members.find? (·.1 == key)).map Prod.snd
  | _ => none

/-- How a character is written inside a string. -/
def writeChar (c : Char) : List Char :=
  match c with
  | '"' => ['\\', '"']
  | '\\' => ['\\', '\\']
  | '\x08' => ['\\', 'b']
  | '\x0c' => ['\\', 'f']
  | '\n' => ['\\', 'n']
  | '\r' => ['\\', 'r']
  | '\t' => ['\\', 't']
  | _ =>
    if c.toNat < 0x20 then
      ['\\', 'u', '0', '0', Nat.digitChar (c.toNat / 16), Nat.digitChar (c.toNat % 16)]
    else [c]

def writeString (text : String) : List Char :=
  '"' :: text.toList.flatMap writeChar ++ ['"']

def writeBool (value : Bool) : List Char :=
  if value then ['t', 'r', 'u', 'e'] else ['f', 'a', 'l', 's', 'e']

mutual

/-- A value on one line. -/
def write : Json → List Char
  | .null => ['n', 'u', 'l', 'l']
  | .bool value => writeBool value
  | .number value => value.text.toList
  | .string text => writeString text
  | .array items => '[' :: writeItems items ++ [']']
  | .object members => '\x7b' :: writeMembers members ++ ['\x7d']

def writeItems : List Json → List Char
  | [] => []
  | [item] => write item
  | item :: rest => write item ++ ',' :: writeItems rest

def writeMembers : List (String × Json) → List Char
  | [] => []
  | [(key, value)] => writeString key ++ ':' :: write value
  | (key, value) :: rest => writeString key ++ ':' :: write value ++ ',' :: writeMembers rest

end

/-- A new line, indented by `level` levels. -/
def newLine (level : Nat) : List Char :=
  '\n' :: List.replicate (2 * level) ' '

mutual

/-- A value over several lines; `level` is the level of the line on which it starts. -/
def writeLines (level : Nat) : Json → List Char
  | .array [] => ['[', ']']
  | .object [] => ['\x7b', '\x7d']
  | .array items => '[' :: writeItemLines (level + 1) items ++ newLine level ++ [']']
  | .object members =>
    '\x7b' :: writeMemberLines (level + 1) members ++ newLine level ++ ['\x7d']
  | value => write value

def writeItemLines (level : Nat) : List Json → List Char
  | [] => []
  | [item] => newLine level ++ writeLines level item
  | item :: rest => newLine level ++ writeLines level item ++ ',' :: writeItemLines level rest

def writeMemberLines (level : Nat) : List (String × Json) → List Char
  | [] => []
  | [(key, value)] => newLine level ++ writeString key ++ ':' :: ' ' :: writeLines level value
  | (key, value) :: rest =>
    newLine level ++ writeString key ++ ':' :: ' ' :: writeLines level value ++
      ',' :: writeMemberLines level rest

end

def compact (value : Json) : String :=
  String.ofList (write value)

def pretty (value : Json) : String :=
  String.ofList (writeLines 0 value)

end Json

end ScriptSense
