import ScriptSense.Json.Failure

/-!
# The smallest parts of JSON texts

Space, the three literal names, numbers and strings, each read from the start of the input.
-/

namespace ScriptSense.Json

def isSpace (c : Char) : Bool :=
  c == ' ' || c == '\n' || c == '\t' || c == '\r'

def skipSpace (input : List Char) : List Char :=
  input.dropWhile isSpace

/-- Reads the characters of `name`. -/
def readLiteral : List Char → List Char → Except Failure (List Char)
  | [], input => .ok input
  | _ :: _, [] => failAt .endOfValue []
  | c :: name, d :: rest =>
    if c = d then readLiteral name rest else failNext .expectedIdent (d :: rest)

def digitValue (c : Char) : Nat :=
  c.toNat - '0'.toNat

/-- Appends digits to a number as long as it stays within `limit`; the second result is how many of
them were appended. -/
def absorb (limit : Nat) (value : Nat) : List Char → Nat × Nat
  | [] => (value, 0)
  | c :: digits =>
    let next := value * 10 + digitValue c
    if limit < next then (value, 0)
    else
      let (result, count) := absorb limit next digits
      (result, count + 1)

/-- The largest number of leading digits that a floating number keeps. -/
def maxDigits : Nat := 0xFFFFFFFFFFFFFFFF

def maxExponent : Nat := 0x7FFFFFFF

def floating (negative : Bool) (digits : Nat) (power : Int) : Reader Number := fun rest ↦
  match Number.magnitude? digits power with
  | none => failAt .numberOutOfRange rest
  | some _ => .ok (.floating negative digits power, rest)

/-- Reads what follows the `e` of a number whose digits are known. -/
def readExponent (negative : Bool) (digits : Nat) (power : Int) : Reader Number := fun input ↦
  let (down, input) :=
    match input with
    | '+' :: rest => (false, rest)
    | '-' :: rest => (true, rest)
    | _ => (false, input)
  match input with
  | [] => failAt .endOfValue []
  | c :: _ =>
    if c.isDigit then
      let run := input.takeWhile Char.isDigit
      let (exponent, count) := absorb maxExponent 0 run
      if count < run.length then
        if digits ≠ 0 ∧ !down then failAt .numberOutOfRange (input.drop (count + 1))
        else .ok (.floating negative 0 0, input.dropWhile Char.isDigit)
      else
        floating negative digits (if down then power - exponent else power + exponent)
          (input.dropWhile Char.isDigit)
    else failNext .invalidNumber input

/-- Reads what follows the digits of a number after its point. -/
def readScale (negative : Bool) (digits : Nat) (power : Int) : Reader Number := fun input ↦
  match input with
  | 'e' :: rest | 'E' :: rest => readExponent negative digits power rest
  | _ => floating negative digits power input

def readFraction (negative : Bool) (digits : Nat) (power : Int) : Reader Number := fun input ↦
  match input.takeWhile Char.isDigit with
  | [] =>
    match input with
    | [] => failAt .endOfValue []
    | _ => failNext .invalidNumber input
  | run =>
    let (digits, count) := absorb maxDigits digits run
    readScale negative digits (power - count) (input.dropWhile Char.isDigit)

/-- A number without point or exponent: an integer if 64 bits hold it and it is not `-0`. -/
def wholeNumber (negative : Bool) (digits : Nat) : Number :=
  if negative then
    if digits = 0 ∨ 0x8000000000000000 < digits then .floating true digits 0
    else .integer (-digits)
  else .integer digits

/-- Reads what follows the digits before the point; `dropped` of them are not kept. -/
def readAfterWhole (negative : Bool) (digits dropped : Nat) : Reader Number := fun input ↦
  match input with
  | '.' :: rest => readFraction negative digits dropped rest
  | 'e' :: rest | 'E' :: rest => readExponent negative digits dropped rest
  | _ =>
    if dropped = 0 then .ok (wholeNumber negative digits, input)
    else floating negative digits dropped input

/-- Reads a number without its sign. -/
def readMagnitude (negative : Bool) : Reader Number := fun input ↦
  match input with
  | [] => failAt .endOfValue []
  | '0' :: rest =>
    if rest.head?.any Char.isDigit then failNext .invalidNumber rest
    else readAfterWhole negative 0 0 rest
  | c :: _ =>
    if c.isDigit then
      let run := input.takeWhile Char.isDigit
      let (digits, count) := absorb maxDigits 0 run
      readAfterWhole negative digits (run.length - count) (input.dropWhile Char.isDigit)
    else failNext .invalidNumber input

def readNumber : Reader Number := fun input ↦
  match input with
  | '-' :: rest => readMagnitude true rest
  | _ => readMagnitude false input

def hexValue? (c : Char) : Option Nat :=
  if c.isDigit then some (digitValue c)
  else if 'a' ≤ c ∧ c ≤ 'f' then some (c.toNat - 'a'.toNat + 10)
  else if 'A' ≤ c ∧ c ≤ 'F' then some (c.toNat - 'A'.toNat + 10)
  else none

/-- Reads the four digits of a `\u` escape. -/
def readHex : Reader Nat := fun input ↦
  if Text.byteSize input < 4 then failAt .endOfString []
  else
    match input with
    | a :: b :: c :: d :: rest =>
      match hexValue? a, hexValue? b, hexValue? c, hexValue? d with
      | some a, some b, some c, some d => .ok (((a * 16 + b) * 16 + c) * 16 + d, rest)
      | _, _, _, _ => .error ⟨.invalidEscape, input, 4⟩
    | _ => .error ⟨.invalidEscape, input, 4⟩

def isLeadingSurrogate (unit : Nat) : Bool :=
  0xD800 ≤ unit && unit ≤ 0xDBFF

def isTrailingSurrogate (unit : Nat) : Bool :=
  0xDC00 ≤ unit && unit ≤ 0xDFFF

/-- Reads the second of two surrogates and joins them to a character. -/
def readTrailingSurrogate (leading : Nat) : Reader Char := fun input ↦
  match input with
  | [] => failAt .endOfString []
  | '\\' :: [] => failAt .endOfString []
  | '\\' :: 'u' :: rest =>
    match readHex rest with
    | .error failure => .error failure
    | .ok (trailing, rest) =>
      if isTrailingSurrogate trailing then
        .ok (Char.ofNat ((leading - 0xD800) * 0x400 + (trailing - 0xDC00) + 0x10000), rest)
      else failAt .loneSurrogate rest
  | '\\' :: rest => failNext .endOfSurrogates rest
  | _ => failNext .endOfSurrogates input

/-- Reads what follows `\u`. -/
def readUnit : Reader Char := fun input ↦
  match readHex input with
  | .error failure => .error failure
  | .ok (unit, rest) =>
    if isTrailingSurrogate unit then failAt .loneSurrogate rest
    else if isLeadingSurrogate unit then readTrailingSurrogate unit rest
    else .ok (Char.ofNat unit, rest)

/-- The character that a one-letter escape stands for. -/
def escape? : Char → Option Char
  | '"' => some '"'
  | '\\' => some '\\'
  | '/' => some '/'
  | 'b' => some '\x08'
  | 'f' => some '\x0c'
  | 'n' => some '\n'
  | 'r' => some '\r'
  | 't' => some '\t'
  | _ => none

/-- Reads what follows a backslash. -/
def readEscape : Reader Char := fun input ↦
  match input with
  | [] => failAt .endOfString []
  | 'u' :: rest => readUnit rest
  | c :: rest =>
    match escape? c with
    | some d => .ok (d, rest)
    | none => failNext .invalidEscape input

def isControl (c : Char) : Bool :=
  c.toNat < 0x20

/-- Reads the rest of a string whose first quote is read; no character takes less than one step. -/
def readCharsFrom : Nat → Reader (List Char)
  | 0, _ => failAt .endOfString []
  | _ + 1, [] => failAt .endOfString []
  | steps + 1, c :: rest =>
    if c = '"' then .ok ([], rest)
    else if c = '\\' then
      match readEscape rest with
      | .error failure => .error failure
      | .ok (d, rest) =>
        match readCharsFrom steps rest with
        | .error failure => .error failure
        | .ok (chars, rest) => .ok (d :: chars, rest)
    else if isControl c then failNext .controlCharacter (c :: rest)
    else
      match readCharsFrom steps rest with
      | .error failure => .error failure
      | .ok (chars, rest) => .ok (c :: chars, rest)

/-- Reads the rest of a string whose first quote is read. -/
def readString : Reader String := fun input ↦
  match readCharsFrom input.length input with
  | .error failure => .error failure
  | .ok (chars, rest) => .ok (String.ofList chars, rest)

end ScriptSense.Json
