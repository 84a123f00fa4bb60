import ScriptSense.Json.Lexical

/-!
# Reading and skipping JSON values

Lists and objects are read step by step, so that what the elements and the members mean is up to the
reader of the whole. A text is read as one value with nothing but space around it. Of two members
with the same key the later one counts.

A value that nobody asked for is read over. Its grammar is checked, but not whether its numbers are
in range or its escapes pair up, and after a comma there has to be another element or member.
-/

namespace ScriptSense.Json

/-- Goes to the next element of a list, or to its closing bracket. -/
def nextElement (first : Bool) (input : List Char) : Except Failure (Bool × List Char) :=
  match skipSpace input with
  | [] => failAt .endOfList []
  | c :: rest =>
    if c = ']' then .ok (false, c :: rest)
    else if first then .ok (true, c :: rest)
    else if c = ',' then
      match skipSpace rest with
      | [] => failAt .endOfValue []
      | d :: rest => if d = ']' then failNext .trailingComma (d :: rest) else .ok (true, d :: rest)
    else failNext .expectedCommaOrBracket (c :: rest)

/-- Reads the closing bracket of a list that has all the elements it may have. -/
def endSequence (input : List Char) : Except Failure (List Char) :=
  match skipSpace input with
  | [] => failAt .endOfList []
  | c :: rest =>
    if c = ']' then .ok rest
    else if c = ',' then
      match skipSpace rest with
      | ']' :: rest => failNext .trailingComma (']' :: rest)
      | rest => failNext .trailingCharacters rest
    else failNext .trailingCharacters (c :: rest)

/-- Goes to the next key of an object, or to its closing brace. -/
def nextKey (first : Bool) (input : List Char) : Except Failure (Bool × List Char) :=
  match skipSpace input with
  | [] => failAt .endOfObject []
  | c :: rest =>
    if c = '\x7d' then .ok (false, c :: rest)
    else if first then
      if c = '"' then .ok (true, c :: rest) else failNext .keyNotString (c :: rest)
    else if c = ',' then
      match skipSpace rest with
      | [] => failAt .endOfValue []
      | d :: rest =>
        if d = '"' then .ok (true, d :: rest)
        else if d = '\x7d' then failNext .trailingComma (d :: rest)
        else failNext .keyNotString (d :: rest)
    else failNext .expectedCommaOrBrace (c :: rest)

/-- Reads the colon after a key. -/
def readColon (input : List Char) : Except Failure (List Char) :=
  match skipSpace input with
  | [] => failAt .endOfObject []
  | c :: rest => if c = ':' then .ok rest else failNext .expectedColon (c :: rest)

/-- Reads the elements of a list and its closing bracket. -/
def readElements {α : Type} (element : Reader α) : Nat → Bool → Reader (List α)
  | 0, _, _ => failAt .endOfList []
  | steps + 1, first, input =>
    match nextElement first input with
    | .error failure => .error failure
    | .ok (false, input) => .ok ([], input.tail)
    | .ok (true, input) =>
      match element input with
      | .error failure => .error failure
      | .ok (value, rest) =>
        match readElements element steps false rest with
        | .error failure => .error failure
        | .ok (values, rest) => .ok (value :: values, rest)

/-- Reads the members of an object up to its closing brace. What follows a key, from the colon on,
is read by `member`, which carries a state along. -/
def readMembers {σ : Type} (member : σ → String → Reader σ) :
    Nat → Bool → σ → Reader σ
  | 0, _, _, _ => failAt .endOfObject []
  | steps + 1, first, state, input =>
    match nextKey first input with
    | .error failure => .error failure
    | .ok (false, input) => .ok (state, input)
    | .ok (true, input) =>
      match readString input.tail with
      | .error failure => .error failure
      | .ok (key, rest) =>
        match member state key rest with
        | .error failure => .error failure
        | .ok (state, rest) => readMembers member steps false state rest

/-- Reads a member's value and puts it among the members read so far. -/
def readMember (value : Reader Json) (members : List (String × Json)) (key : String) :
    Reader (List (String × Json)) := fun input ↦
  match readColon input with
  | .error failure => .error failure
  | .ok rest =>
    match value rest with
    | .error failure => .error failure
    | .ok (item, rest) => .ok (insertMember key item members, rest)

/-- Reads a value that is nested less than `depth` deep. -/
def readValueFrom : Nat → Reader Json
  | 0, _ => failAt .endOfValue []
  | depth + 1, input =>
    match skipSpace input with
    | [] => failAt .endOfValue []
    | c :: rest =>
      match c with
      | 'n' => (readLiteral ['u', 'l', 'l'] rest).map (Json.null, ·)
      | 't' => (readLiteral ['r', 'u', 'e'] rest).map (Json.bool true, ·)
      | 'f' => (readLiteral ['a', 'l', 's', 'e'] rest).map (Json.bool false, ·)
      | '"' => (readString rest).map fun (text, rest) ↦ (Json.string text, rest)
      | '[' =>
        (readElements (readValueFrom depth) (rest.length + 1) true rest).map fun (items, rest) ↦
          (Json.array items, rest)
      | '\x7b' =>
        (readMembers (readMember (readValueFrom depth)) (rest.length + 1) true [] rest).map
          fun (members, rest) ↦ (Json.object members, rest.tail)
      | _ =>
        if c = '-' || c.isDigit then
          (readNumber (c :: rest)).map fun (value, rest) ↦ (Json.number value, rest)
        else failNext .expectedValue (c :: rest)

def readValue : Reader Json := fun input ↦
  readValueFrom (input.length + 1) input

/-- Reads all of a text with `reader`. -/
def readAll {α : Type} (reader : Reader α) (text : String) : Except Failure α :=
  match reader text.toList with
  | .error failure => .error failure
  | .ok (value, rest) =>
    match skipSpace rest with
    | [] => .ok value
    | rest => failNext .trailingCharacters rest

def parse (text : String) : Except Failure Json :=
  readAll readValue text

def skipDigits (input : List Char) : List Char :=
  input.dropWhile Char.isDigit

/-- Skips what follows the `e` of a number. -/
def skipExponent (input : List Char) : Except Failure (List Char) :=
  let input :=
    match input with
    | '+' :: rest | '-' :: rest => rest
    | _ => input
  if input.head?.any Char.isDigit then .ok (skipDigits input)
  else failNext .invalidNumber input

def skipScale (input : List Char) : Except Failure (List Char) :=
  match input with
  | 'e' :: rest | 'E' :: rest => skipExponent rest
  | _ => .ok input

/-- Skips what follows the digits of a number before its point. -/
def skipFraction (input : List Char) : Except Failure (List Char) :=
  match input with
  | '.' :: rest =>
    if rest.head?.any Char.isDigit then skipScale (skipDigits rest)
    else failNext .invalidNumber rest
  | _ => skipScale input

def skipMagnitude (input : List Char) : Except Failure (List Char) :=
  match input with
  | [] => failNext .invalidNumber []
  | c :: rest =>
    if c = '0' then
      if rest.head?.any Char.isDigit then failNext .invalidNumber rest else skipFraction rest
    else if c.isDigit then skipFraction (skipDigits rest)
    else failNext .invalidNumber (c :: rest)

/-- Skips what follows a backslash. -/
def skipEscape (input : List Char) : Except Failure (List Char) :=
  match input with
  | [] => failAt .endOfString []
  | 'u' :: rest => (readHex rest).map Prod.snd
  | c :: rest => if (escape? c).isSome then .ok rest else failNext .invalidEscape input

/-- Skips the rest of a string whose first quote is read; no character takes less than one step. -/
def skipCharsFrom : Nat → List Char → Except Failure (List Char)
  | 0, _ => failAt .endOfString []
  | _ + 1, [] => failAt .endOfString []
  | steps + 1, c :: rest =>
    if c = '"' then .ok rest
    else if c = '\\' then
      match skipEscape rest with
      | .error failure => .error failure
      | .ok rest => skipCharsFrom steps rest
    else if isControl c then failAt .controlCharacter (c :: rest)
    else skipCharsFrom steps rest

def skipString (input : List Char) : Except Failure (List Char) :=
  skipCharsFrom input.length input

/-- Skips the elements of a list and its closing bracket. -/
def skipElements (element : List Char → Except Failure (List Char)) :
    Nat → Bool → List Char → Except Failure (List Char)
  | 0, _, _ => failAt .endOfList []
  | steps + 1, first, input =>
    match skipSpace input with
    | [] => failAt .endOfList []
    | c :: rest =>
      if c = ']' then .ok rest
      else if first || c = ',' then
        match element (if first then c :: rest else rest) with
        | .error failure => .error failure
        | .ok rest => skipElements element steps false rest
      else failNext .expectedCommaOrBracket (c :: rest)

/-- Skips a key, the colon after it, and the value. -/
def skipMember (value : List Char → Except Failure (List Char)) (input : List Char) :
    Except Failure (List Char) :=
  match skipSpace input with
  | [] => failAt .endOfObject []
  | c :: rest =>
    if c = '"' then
      match skipString rest with
      | .error failure => .error failure
      | .ok rest =>
        match readColon rest with
        | .error failure => .error failure
        | .ok rest => value rest
    else failNext .keyNotString (c :: rest)

/-- Skips the members of an object and its closing brace. -/
def skipMembers (member : List Char → Except Failure (List Char)) :
    Nat → Bool → List Char → Except Failure (List Char)
  | 0, _, _ => failAt .endOfObject []
  | steps + 1, first, input =>
    match skipSpace input with
    | [] => failAt .endOfObject []
    | c :: rest =>
      if c = '\x7d' then .ok rest
      else if first || c = ',' then
        match member (if first then c :: rest else rest) with
        | .error failure => .error failure
        | .ok rest => skipMembers member steps false rest
      else failNext .expectedCommaOrBrace (c :: rest)

/-- Skips a value that is nested less than `depth` deep. -/
def skipValueFrom : Nat → List Char → Except Failure (List Char)
  | 0, _ => failAt .endOfValue []
  | depth + 1, input =>
    match skipSpace input with
    | [] => failAt .endOfValue []
    | c :: rest =>
      match c with
      | 'n' => readLiteral ['u', 'l', 'l'] rest
      | 't' => readLiteral ['r', 'u', 'e'] rest
      | 'f' => readLiteral ['a', 'l', 's', 'e'] rest
      | '"' => skipString rest
      | '-' => skipMagnitude rest
      | '[' => skipElements (skipValueFrom depth) (rest.length + 1) true rest
      | '\x7b' => skipMembers (skipMember (skipValueFrom depth)) (rest.length + 1) true rest
      | _ => if c.isDigit then skipMagnitude (c :: rest) else failNext .expectedValue (c :: rest)

def skipValue (input : List Char) : Except Failure (List Char) :=
  skipValueFrom (input.length + 1) input

end ScriptSense.Json
