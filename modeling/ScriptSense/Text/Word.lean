import ScriptSense.Text.Column
import ScriptSense.Text.Line

/-!
# Words and string literals

A word is a run of ASCII letters, digits and underscores that no further such character extends. A
line is read from left to right into its words; the word at a column is found by looking out from
the column in both directions.

A literal runs from a quote to the next quote of the same kind on its line, and the quotes are part
of it. A quote that no later one closes is an ordinary character.
-/

namespace ScriptSense.Text

def isWordChar (c : Char) : Bool :=
  c.isAlphanum || c == '_'

/-- A word of a line, and the byte at which it starts. -/
structure Word where
  offset : Nat
  chars : List Char
  deriving DecidableEq, Repr, Inhabited

def Word.text (word : Word) : String :=
  String.ofList word.chars

/-- The words of the rest of a line whose first character is at byte `offset`. -/
def wordsFrom (offset : Nat) : List Char → List Word
  | [] => []
  | c :: rest =>
    if isWordChar c then
      let run := c :: rest.takeWhile isWordChar
      ⟨offset, run⟩ :: wordsFrom (offset + byteSize run) (rest.dropWhile isWordChar)
    else wordsFrom (offset + c.utf8Size) rest
termination_by line => line.length
decreasing_by
  · exact Nat.lt_succ_of_le (List.dropWhile_sublist _).length_le
  · exact Nat.lt_succ_self _

def words (line : List Char) : List Word :=
  wordsFrom 0 line

/-- A word that can name something: it does not start with a digit. -/
def Word.isIdentifier (word : Word) : Bool :=
  !word.chars.head?.any Char.isDigit

def identifiers (line : List Char) : List Word :=
  (words line).filter Word.isIdentifier

/-- Where `name` stands on a line as a word of its own. -/
def wordMatches (line : List Char) (name : String) : List Nat :=
  (words line).filterMap fun word ↦ if word.text = name then some word.offset else none

/-- The word that touches a column: the word characters that end there, and those that start
there. -/
def wordAt (line : List Char) (column : Nat) : Option Word :=
  let (before, after) := splitColumn column line
  match takeEndWhile isWordChar before ++ after.takeWhile isWordChar with
  | [] => none
  | c :: rest => some ⟨byteSize (dropEndWhile isWordChar before), c :: rest⟩

/-- The bytes from `start` up to, but not including, `stop`. -/
structure ByteSpan where
  start : Nat
  stop : Nat
  deriving DecidableEq, Repr, Inhabited

def ByteSpan.contains (span : ByteSpan) (offset : Nat) : Bool :=
  span.start ≤ offset && offset < span.stop

theorem ByteSpan.contains_iff {span : ByteSpan} {offset : Nat} :
    span.contains offset ↔ span.start ≤ offset ∧ offset < span.stop := by
  rw [ByteSpan.contains, Bool.and_eq_true, decide_eq_true_eq, decide_eq_true_eq]

def isQuote (c : Char) : Bool :=
  c == '"' || c == '\''

theorem isQuote_iff {c : Char} : isQuote c ↔ c = '"' ∨ c = '\'' := by
  rw [isQuote, Bool.or_eq_true, beq_iff_eq, beq_iff_eq]

/-- The literals of the rest of a line whose first character is at byte `offset`. -/
def literalsFrom (offset : Nat) : List Char → List ByteSpan
  | [] => []
  | c :: rest =>
    if isQuote c && rest.contains c then
      let body := rest.takeWhile (· != c)
      let stop := offset + byteSize body + 2
      ⟨offset, stop⟩ :: literalsFrom stop (rest.drop (body.length + 1))
    else literalsFrom (offset + c.utf8Size) rest
termination_by line => line.length
decreasing_by
  · simp only [List.length_cons, List.length_drop]
    omega
  · exact Nat.lt_succ_self _

def literals (line : List Char) : List ByteSpan :=
  literalsFrom 0 line

/-- A byte that lies in some literal of the line. -/
def inLiteral (line : List Char) (offset : Nat) : Bool :=
  (literals line).any (·.contains offset)

end ScriptSense.Text
