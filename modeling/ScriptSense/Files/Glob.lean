import ScriptSense.Text.Utf8

/-!
# Glob patterns

A pattern may list alternatives in braces. It then stands for the patterns in which each list is
replaced by one of its members. An alternative with nothing in it is left out, and braces that are
not paired make a pattern malformed.

A pattern without alternatives is matched against a whole path, byte by byte. A star and a question
mark match no slash; two stars that make up a whole name match any number of names.
-/

namespace ScriptSense.Files

namespace Braces

inductive Part
  | char (c : Char)
  | opening
  | comma
  | closing
  deriving DecidableEq, Repr, Inhabited

/-- The characters of a class, through its closing bracket, and what follows it. -/
def splitClass (first : Bool) : List Char → Option (List Char × List Char)
  | [] => none
  | c :: rest =>
    if c = ']' ∧ !first then some ([c], rest)
    else (splitClass false rest).map fun (inside, after) ↦ (c :: inside, after)

/-- Tells the braces and commas of a pattern from the characters that stand for themselves. No step
takes less than one character. -/
def partsFrom : Nat → List Char → List Part
  | _, [] => []
  | 0, _ => []
  | steps + 1, c :: rest =>
    match c with
    | '\\' =>
      match rest with
      | [] => [.char c]
      | d :: rest => .char c :: .char d :: partsFrom steps rest
    | '[' =>
      let start := if rest.head?.any ['!', '^'].contains then 1 else 0
      match splitClass true (rest.drop start) with
      | none => .char c :: partsFrom steps rest
      | some (inside, after) =>
        (c :: rest.take start ++ inside).map .char ++ partsFrom steps after
    | '\x7b' => .opening :: partsFrom steps rest
    | '\x7d' => .closing :: partsFrom steps rest
    | ',' => .comma :: partsFrom steps rest
    | _ => .char c :: partsFrom steps rest

/-- The alternatives that an open list has so far, the one being read, and the patterns before the
list. -/
structure Level where
  before : List (List Char)
  finished : List (List Char)

/-- Appends each of `ends` to each of `starts`. -/
def combine (starts ends : List (List Char)) : List (List Char) :=
  starts.flatMap fun start ↦ ends.map (start ++ ·)

/-- The members of a list that is closed; where all are empty, one empty member remains. -/
def members (all : List (List Char)) : List (List Char) :=
  match all.filter (!·.isEmpty) with
  | [] => [[]]
  | kept => kept

def expandParts (levels : List Level) (current : List (List Char)) :
    List Part → Option (List (List Char))
  | [] => if levels.isEmpty then some current else none
  | .char c :: rest => expandParts levels (current.map (· ++ [c])) rest
  | .opening :: rest => expandParts (⟨current, []⟩ :: levels) [[]] rest
  | .comma :: rest =>
    match levels with
    | [] => expandParts [] (current.map (· ++ [','])) rest
    | level :: others =>
      expandParts (⟨level.before, level.finished ++ current⟩ :: others) [[]] rest
  | .closing :: rest =>
    match levels with
    | [] => none
    | level :: others =>
      expandParts others (combine level.before (members (level.finished ++ current))) rest

/-- The patterns without braces that a pattern stands for, unless its braces are not paired. -/
def expand (pattern : List Char) : Option (List (List Char)) :=
  expandParts [] [[]] (partsFrom pattern.length pattern)

end Braces

inductive GlobToken
  | byte (b : UInt8)
  | anyByte
  | anyRun
  | oneOf (negated : Bool) (ranges : List (UInt8 × UInt8))
  | leadingNames
  | innerNames
  | trailingNames
  deriving DecidableEq, Repr, Inhabited

namespace Glob

def slash : UInt8 := '/'.toNat.toUInt8

/-- A list and all that is left of it after dropping some of its first members. -/
def suffixes : List UInt8 → List (List UInt8)
  | [] => [[]]
  | b :: rest => (b :: rest) :: suffixes rest

/-- What may be left after a run of bytes that are no slash. -/
def afterRun : List UInt8 → List (List UInt8)
  | [] => [[]]
  | b :: rest => (b :: rest) :: (if b = slash then [] else afterRun rest)

/-- What may be left after any bytes and a slash. -/
def afterSlashes : List UInt8 → List (List UInt8)
  | [] => []
  | b :: rest => (if b = slash then [rest] else []) ++ afterSlashes rest

def inRanges (ranges : List (UInt8 × UInt8)) (b : UInt8) : Bool :=
  ranges.any fun (low, high) ↦ low ≤ b && b ≤ high

/-- What may be left of a path after a token has matched its start. -/
def rests (token : GlobToken) (path : List UInt8) : List (List UInt8) :=
  match token, path with
  | .anyRun, path => afterRun path
  | .leadingNames, path => path :: afterSlashes path
  | .byte b, c :: rest => if b = c then [rest] else []
  | .anyByte, c :: rest => if c = slash then [] else [rest]
  | .oneOf negated ranges, c :: rest => if inRanges ranges c != negated then [rest] else []
  | .innerNames, c :: rest => if c = slash then rest :: afterSlashes rest else []
  | .trailingNames, c :: rest => if c = slash then suffixes rest else []
  | _, [] => []

def isMatch : List GlobToken → List UInt8 → Bool
  | [], path => path.isEmpty
  | token :: tokens, path => (rests token path).any (isMatch tokens)

/-- Whether tokens match all of a path; two stars alone match every path. -/
def accepts (tokens : List GlobToken) (path : List UInt8) : Bool :=
  tokens == [.leadingNames] || isMatch tokens path

/-- What a class holds so far: its ranges, the latest first, and whether a range is open. -/
structure ClassState where
  ranges : List (Char × Char)
  isOpen : Bool

/-- Reads a class up to its closing bracket: its ranges and what follows. A class that is not
closed is none, and a range that goes down is a mistake. -/
def readClass (first : Bool) (state : ClassState) :
    List Char → Option (Except Unit (List (Char × Char) × List Char))
  | [] => none
  | c :: rest =>
    if c = ']' ∧ !first then
      some (.ok ((if state.isOpen then ('-', '-') :: state.ranges else state.ranges).reverse, rest))
    else if c = '-' ∧ !first ∧ !state.isOpen then
      readClass false { state with isOpen := true } rest
    else if state.isOpen then
      match state.ranges with
      | [] => readClass false ⟨[(c, c)], false⟩ rest
      | (low, _) :: ranges =>
        if c < low then some (.error ()) else readClass false ⟨(low, c) :: ranges, false⟩ rest
    else readClass false ⟨(c, c) :: state.ranges, false⟩ rest

def charBytes (c : Char) : List UInt8 :=
  String.utf8EncodeChar c

/-- The byte ranges of a range of characters. Characters beyond ASCII stand for their bytes. -/
def byteRanges (range : Char × Char) : List (UInt8 × UInt8) :=
  if range.1 = range.2 then (charBytes range.1).map fun b ↦ (b, b)
  else
    let low := charBytes range.1
    let high := charBytes range.2
    (low.dropLast.map fun b ↦ (b, b)) ++ [(low.getLast?.getD 0, high.head?.getD 0)] ++
      (high.tail.map fun b ↦ (b, b))

/-- Puts two stars after the tokens so far, which are in reverse; `next` is what follows them. -/
def addStars (tokens : List GlobToken) (next : List Char) : List GlobToken × List Char :=
  let plain := (.anyRun :: .anyRun :: tokens, next)
  match tokens with
  | [] =>
    match next with
    | [] => ([.leadingNames], [])
    | '/' :: rest => ([.leadingNames], rest)
    | _ => plain
  | .leadingNames :: _ =>
    match next with
    | [] => (tokens, [])
    | '/' :: rest => (tokens, rest)
    | _ => plain
  | last :: earlier =>
    if last = .byte slash ∨ last = .innerNames then
      match next with
      | [] => (.trailingNames :: earlier, [])
      | '/' :: rest => (.innerNames :: earlier, rest)
      | _ => plain
    else plain

/-- The tokens of a pattern, after those that are read, which are in reverse. No step takes less
than one character. -/
def tokensFrom (tokens : List GlobToken) : Nat → List Char → Option (List GlobToken)
  | _, [] => some tokens.reverse
  | 0, _ => some tokens.reverse
  | steps + 1, c :: rest =>
    match c with
    | '?' => tokensFrom (.anyByte :: tokens) steps rest
    | '*' =>
      match rest with
      | '*' :: rest =>
        let (tokens, rest) := addStars tokens rest
        tokensFrom tokens steps rest
      | _ => tokensFrom (.anyRun :: tokens) steps rest
    | '[' =>
      let negated := rest.head?.any ['!', '^'].contains
      match readClass true ⟨[], false⟩ (if negated then rest.tail else rest) with
      | none => tokensFrom (.byte '['.toNat.toUInt8 :: tokens) steps rest
      | some (.error ()) => none
      | some (.ok (ranges, rest)) =>
        tokensFrom (.oneOf negated (ranges.flatMap byteRanges) :: tokens) steps rest
    | '\\' =>
      match rest with
      | [] => none
      | d :: rest => tokensFrom ((charBytes d).reverse.map .byte ++ tokens) steps rest
    | _ => tokensFrom ((charBytes c).reverse.map .byte ++ tokens) steps rest

/-- The tokens of a pattern, unless it is malformed. -/
def tokens? (pattern : List Char) : Option (List GlobToken) :=
  tokensFrom [] pattern.length pattern

end Glob

end ScriptSense.Files
