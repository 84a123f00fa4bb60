import ScriptSense.Text.Column
import ScriptSense.Text.Line

/-!
# Indentation

Every line is trimmed and then indented by its depth. A line that starts with a closing brace is one
level less deep than the text before it, and a line that ends with an opening brace makes the lines
after it one level deeper. The depth is never less than zero.
-/

namespace ScriptSense

/-- What one level of indentation is written with. -/
structure IndentStyle where
  tabSize : Nat
  insertSpaces : Bool
  deriving DecidableEq, Repr, Inhabited

/-- The replacement of a stretch of text. -/
structure Edit where
  range : Range
  newText : String
  deriving DecidableEq, Repr, Inhabited

namespace Layout

open Text

def defaultTabSize : Nat := 4

/-- One level of indentation; a tab size of zero stands for the usual one. -/
def unit (style : IndentStyle) : List Char :=
  if style.insertSpaces then
    List.replicate (if style.tabSize = 0 then defaultTabSize else style.tabSize) ' '
  else ['\t']

def startsWithCloser (line : List Char) : Bool :=
  (trim line).head? == some '\x7d'

def endsWithOpener (line : List Char) : Bool :=
  (trim line).getLast? == some '\x7b'

/-- The depth of a line after text of depth `level`. -/
def ownDepth (level : Nat) (line : List Char) : Nat :=
  if startsWithCloser line then level - 1 else level

/-- The depth of the text after a line of depth `depth`. -/
def depthAfter (depth : Nat) (line : List Char) : Nat :=
  if endsWithOpener line then depth + 1 else depth

def depths (level : Nat) : List (List Char) → List Nat
  | [] => []
  | line :: rest => ownDepth level line :: depths (depthAfter (ownDepth level line) line) rest

/-- A line at the given depth. -/
def indent (style : IndentStyle) (depth : Nat) (line : List Char) : List Char :=
  (List.replicate depth (unit style)).flatten ++ trim line

def indentLines (style : IndentStyle) (lines : List (List Char)) : List (List Char) :=
  List.zipWith (indent style) (depths 0 lines) lines

/-- From the first character of a text to its last. -/
def wholeText (lines : List (List Char)) : Range :=
  ⟨⟨0, 0⟩, ⟨lines.length - 1, width (lines.getLast?.getD [])⟩⟩

/-- The replacement of a whole text by its indented form. -/
def format (text : String) (style : IndentStyle) : Edit where
  range := wholeText (lines text)
  newText := String.ofList (joinLines (indentLines style (lines text)))

end Layout

end ScriptSense
