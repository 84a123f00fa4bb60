import ScriptSense.Json.Basic
import ScriptSense.Json.Read

/-!
# Codecs

A codec says how the values of a type are written as JSON and read back, both from text and from a
JSON value. Reading from text decides from left to right, and the first thing that does not fit is
what fails; it never reads on to see whether the rest is well formed.
-/

namespace ScriptSense.Wire

open Json

structure Codec (α : Type) where
  read : Reader α
  ofJson : Json → Except Fault α
  toJson : α → Json

/-- Goes to the first character of a value. -/
def valueStart (input : List Char) : Except Failure (Char × List Char) :=
  match skipSpace input with
  | [] => failAt .endOfValue []
  | c :: rest => .ok (c, rest)

/-- Reads the value whose first character is `c`, as far as is needed to say what it is. -/
def readFound (c : Char) : Reader Found := fun rest ↦
  match c with
  | 'n' => (readLiteral ['u', 'l', 'l'] rest).map (Found.null, ·)
  | 't' => (readLiteral ['r', 'u', 'e'] rest).map (Found.bool true, ·)
  | 'f' => (readLiteral ['a', 'l', 's', 'e'] rest).map (Found.bool false, ·)
  | '"' => (readString rest).map fun (text, rest) ↦ (Found.string text, rest)
  | '[' => .ok (.sequence, c :: rest)
  | '\x7b' => .ok (.map, c :: rest)
  | _ =>
    if c = '-' || c.isDigit then
      (readNumber (c :: rest)).map fun (value, rest) ↦ (Found.number value, rest)
    else failNext .expectedValue (c :: rest)

/-- Fails with the type of the value whose first character is `c`. -/
def wrongType {α : Type} (expected : String) (c : Char) : Reader α := fun rest ↦
  match readFound c rest with
  | .error failure => .error failure
  | .ok (found, rest) => failAt (.invalidType found expected) rest

/-- A fault that arises once the input up to `rest` is read. -/
def liftAt {α : Type} (result : Except Fault α) : Reader α := fun rest ↦
  match result with
  | .error fault => failAt fault rest
  | .ok value => .ok (value, rest)

namespace Codec

/-- A natural number of at most `limit`, out of a JSON number. -/
def natOfNumber (name : String) (limit : Nat) : Number → Except Fault Nat
  | .integer value =>
    if 0 ≤ value ∧ value ≤ limit then .ok value.toNat
    else .error (.invalidValue (.number (.integer value)) name)
  | other => .error (.invalidType (.number other) name)

/-- Natural numbers up to `limit`. -/
def nat (name : String) (limit : Nat) : Codec Nat where
  read input :=
    match valueStart input with
    | .error failure => .error failure
    | .ok (c, rest) =>
      if c = '-' || c.isDigit then
        match readNumber (c :: rest) with
        | .error failure => .error failure
        | .ok (value, rest) => liftAt (natOfNumber name limit value) rest
      else wrongType name c rest
  ofJson
    | .number value => natOfNumber name limit value
    | value => .error (.invalidType value.found name)
  toJson := ofNat

def word32 : Codec Nat :=
  nat "u32" 0xFFFFFFFF

def word64 : Codec Nat :=
  nat "usize" 0xFFFFFFFFFFFFFFFF

def bool : Codec Bool where
  read input :=
    match valueStart input with
    | .error failure => .error failure
    | .ok (c, rest) =>
      if c = 't' then (readLiteral ['r', 'u', 'e'] rest).map (true, ·)
      else if c = 'f' then (readLiteral ['a', 'l', 's', 'e'] rest).map (false, ·)
      else wrongType "a boolean" c rest
  ofJson
    | .bool value => .ok value
    | value => .error (.invalidType value.found "a boolean")
  toJson := .bool

def text : Codec String where
  read input :=
    match valueStart input with
    | .error failure => .error failure
    | .ok (c, rest) => if c = '"' then readString rest else wrongType "a string" c rest
  ofJson
    | .string value => .ok value
    | value => .error (.invalidType value.found "a string")
  toJson := .string

/-- Values that may be null. -/
def optional {α : Type} (codec : Codec α) : Codec (Option α) where
  read input :=
    match skipSpace input with
    | 'n' :: rest => (readLiteral ['u', 'l', 'l'] rest).map (none, ·)
    | input => (codec.read input).map fun (value, rest) ↦ (some value, rest)
  ofJson
    | .null => .ok none
    | value => (codec.ofJson value).map some
  toJson
    | none => .null
    | some value => codec.toJson value

def list {α : Type} (codec : Codec α) : Codec (List α) where
  read input :=
    match valueStart input with
    | .error failure => .error failure
    | .ok (c, rest) =>
      if c = '[' then readElements codec.read (rest.length + 1) true rest
      else wrongType "a sequence" c rest
  ofJson
    | .array items => items.mapM codec.ofJson
    | value => .error (.invalidType value.found "a sequence")
  toJson values := .array (values.map codec.toJson)

/-- A finite type whose values are written as their names. -/
structure Choices (α : Type) where
  all : List α
  name : α → String

namespace Choices

def ofName {α : Type} (choices : Choices α) (name : String) : Except Fault α :=
  match choices.all.find? (choices.name · == name) with
  | some value => .ok value
  | none => .error (.unknownVariant name (choices.all.map choices.name))

/-- Reads the null that may go with a name. -/
def readNothing : Reader Unit := fun input ↦
  match valueStart input with
  | .error failure => .error failure
  | .ok (c, rest) =>
    if c = 'n' then (readLiteral ['u', 'l', 'l'] rest).map ((), ·) else wrongType "unit" c rest

/-- Reads a name and finds the value that it stands for. -/
def readName {α : Type} (choices : Choices α) : Reader α := fun input ↦
  match valueStart input with
  | .error failure => .error failure
  | .ok (c, rest) =>
    if c = '"' then
      match readString rest with
      | .error failure => .error failure
      | .ok (name, rest) => liftAt (choices.ofName name) rest
    else wrongType "variant identifier" c rest

/-- Reads `name: null` and the brace after it. -/
def readTagged {α : Type} (choices : Choices α) : Reader α := fun input ↦
  match choices.readName input with
  | .error failure => .error failure
  | .ok (value, rest) =>
    match readColon rest with
    | .error failure => .error failure
    | .ok rest =>
      match readNothing rest with
      | .error failure => .error failure
      | .ok ((), rest) =>
        match skipSpace rest with
        | [] => failAt .endOfObject []
        | c :: rest => if c = '\x7d' then .ok (value, rest) else failAt .expectedValue (c :: rest)

end Choices

/-- A value is a name, or an object with the name as its one key and null as the value. -/
def choice {α : Type} (choices : Choices α) : Codec α where
  read input :=
    match valueStart input with
    | .error failure => .error failure
    | .ok (c, rest) =>
      if c = '"' then choices.readName (c :: rest)
      else if c = '\x7b' then choices.readTagged rest
      else failNext .expectedValue (c :: rest)
  ofJson
    | .string name => choices.ofName name
    | .object [(name, value)] =>
      match choices.ofName name with
      | .error fault => .error fault
      | .ok choice =>
        match value with
        | .null => .ok choice
        | value => .error (.invalidType value.found "unit")
    | .object _ => .error (.invalidValue .map "map with a single key")
    | value => .error (.invalidType value.found "string or map")
  toJson value := .string (choices.name value)

end Codec

end ScriptSense.Wire
