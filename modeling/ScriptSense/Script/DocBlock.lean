import ScriptSense.Script.Shape
import ScriptSense.Text.Line

/-!
# Documentation blocks

A documentation block covers the lines from its opening through the first one that ends with the
closing marker, or through the end of the text. Its text is what remains of those lines without the
markers, the asterisk that decorates a line, and the lines that are left blank.
-/

namespace ScriptSense.Script

open Text

/-- The text of a block, the number of its last line, and whether that line closes it. -/
structure DocBlock where
  text : String
  lastLine : Nat
  closed : Bool
  deriving DecidableEq, Repr, Inhabited

namespace DocBlock

/-- Cuts the lines after the first one that closes a block. -/
def split : List (List Char) → List (List Char) × List (List Char)
  | [] => ([], [])
  | line :: rest =>
    if closesDoc line then ([line], rest)
    else
      let (inside, after) := split rest
      (line :: inside, after)

theorem split_append (lines : List (List Char)) : (split lines).1 ++ (split lines).2 = lines := by
  induction lines with
  | nil => rfl
  | cons line rest ih =>
    unfold split
    split
    · rfl
    · simp [ih]

theorem length_split_cons (line : List Char) (rest : List (List Char)) :
    (split (line :: rest)).2.length < (line :: rest).length := by
  have h := congrArg List.length (split_append rest)
  unfold split
  split
  · simp
  · simp only [List.length_append] at h
    simp only [List.length_cons]
    omega

def withoutOpener (line : List Char) : List Char :=
  (docOpener.isPrefixOf? line).getD line

def withoutCloser (line : List Char) : List Char :=
  (docCloser.isSuffixOf? line).getD line

/-- What follows the decorating asterisk and the space after it. -/
def withoutDecoration (line : List Char) : List Char :=
  match trimStart line with
  | '*' :: ' ' :: rest => rest
  | '*' :: rest => rest
  | _ => line

def cleanLine (line : List Char) : List Char :=
  withoutDecoration (withoutCloser (withoutOpener (trim line)))

/-- The documentation that the lines of a block hold. -/
def content (lines : List (List Char)) : List Char :=
  trim (joinLines ((lines.map cleanLine).filter (!isBlankLine ·)))

/-- The block that opens at line `start`. -/
def collect (lines : List (List Char)) (start : Nat) : DocBlock :=
  let inside := (split (lines.drop start)).1
  { text := String.ofList (content inside)
    lastLine := start + (inside.length - 1)
    closed := inside.getLast?.any closesDoc }

/-- The documentation that waits for a declaration once the block is read. -/
def pending (text : List Char) : Option String :=
  if text = [] then none else some (String.ofList text)

end DocBlock

end ScriptSense.Script
