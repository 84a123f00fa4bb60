/-!
# Lines of a text

A line ends at a line feed, and one carriage return before the line feed (or before the end of the
text) belongs to the line's end. A text without line feeds is one line, also when it is empty.

A character is blank when it has the Unicode property White_Space. Trimming a line removes the
blank characters at its two ends and nothing else.
-/

namespace ScriptSense.Text

/-- The first and last code point of each stretch of blank characters. -/
def blankStretches : List (Nat × Nat) :=
  [(0x09, 0x0D), (0x20, 0x20), (0x85, 0x85), (0xA0, 0xA0), (0x1680, 0x1680), (0x2000, 0x200A),
    (0x2028, 0x2029), (0x202F, 0x202F), (0x205F, 0x205F), (0x3000, 0x3000)]

def isBlank (c : Char) : Bool :=
  blankStretches.any fun (low, high) ↦ low ≤ c.toNat && c.toNat ≤ high

/-- The longest suffix whose members all satisfy `p`. -/
def takeEndWhile {α : Type} (p : α → Bool) (xs : List α) : List α :=
  (xs.reverse.takeWhile p).reverse

/-- What is left after the longest suffix whose members all satisfy `p`. -/
def dropEndWhile {α : Type} (p : α → Bool) (xs : List α) : List α :=
  (xs.reverse.dropWhile p).reverse

theorem dropEndWhile_append_takeEndWhile {α : Type} (p : α → Bool) (xs : List α) :
    dropEndWhile p xs ++ takeEndWhile p xs = xs := by
  rw [dropEndWhile, takeEndWhile, ← List.reverse_append, List.takeWhile_append_dropWhile,
    List.reverse_reverse]

def trimStart (line : List Char) : List Char :=
  line.dropWhile isBlank

def trimEnd (line : List Char) : List Char :=
  dropEndWhile isBlank line

def trim (line : List Char) : List Char :=
  trimEnd (trimStart line)

/-- A line with nothing but blank characters on it. -/
def isBlankLine (line : List Char) : Bool :=
  line.all isBlank

/-- The stretches between the marks of a list, of which there is one more than there are marks. -/
def splitAt {α : Type} (isMark : α → Bool) : List α → List (List α)
  | [] => [[]]
  | x :: rest =>
    if isMark x then [] :: splitAt isMark rest
    else
      match splitAt isMark rest with
      | [] => [[x]]
      | first :: others => (x :: first) :: others

theorem splitAt_ne_nil {α : Type} (isMark : α → Bool) (xs : List α) :
    splitAt isMark xs ≠ [] := by
  cases xs with
  | nil => simp [splitAt]
  | cons x rest =>
    unfold splitAt
    split
    · simp
    · split <;> simp

/-- A line without the carriage return that ends it, if one does. -/
def dropReturn (line : List Char) : List Char :=
  if line.getLast? = some '\r' then line.dropLast else line

def lines (text : String) : List (List Char) :=
  (splitAt (· == '\n') text.toList).map dropReturn

/-- Lines written one after the other, with a line feed between each two. -/
def joinLines (lines : List (List Char)) : List Char :=
  List.intercalate ['\n'] lines

theorem lines_ne_nil (text : String) : lines text ≠ [] := by
  simp [lines, splitAt_ne_nil]

end ScriptSense.Text
