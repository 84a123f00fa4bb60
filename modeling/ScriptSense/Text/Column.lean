/-!
# Columns and byte offsets

A place on a line is named in two ways: by the number of bytes before it in UTF-8, and by the number
of UTF-16 units before it, which is its column. Positions count lines and columns from zero, and a
range is half open.
-/

namespace ScriptSense

/-- A place in a document: a line and a column, both counted from zero. -/
structure Position where
  line : Nat
  column : Nat
  deriving DecidableEq, Repr, Inhabited

/-- The text from `start` up to, but not including, `stop`. -/
structure Range where
  start : Position
  stop : Position
  deriving DecidableEq, Repr, Inhabited

namespace Text

/-- The number of UTF-16 units of a character. -/
def units (c : Char) : Nat :=
  if c.toNat < 0x10000 then 1 else 2

/-- The length of a line in UTF-16 units. -/
def width : List Char → Nat
  | [] => 0
  | c :: rest => units c + width rest

/-- The length of a line in UTF-8 bytes. -/
def byteSize : List Char → Nat
  | [] => 0
  | c :: rest => c.utf8Size + byteSize rest

/-- The column of a byte offset: the units of the characters that start before it. -/
def columnAt : List Char → Nat → Nat
  | [], _ => 0
  | c :: rest, offset => if offset = 0 then 0 else units c + columnAt rest (offset - c.utf8Size)

/-- Cuts a line at the first character boundary that is at `column` or after it, or at its end. -/
def splitColumn : Nat → List Char → List Char × List Char
  | _, [] => ([], [])
  | column, c :: rest =>
    if column = 0 then ([], c :: rest)
    else
      let (before, after) := splitColumn (column - units c) rest
      (c :: before, after)

/-- The byte offset of a column; a column past the end of the line is taken to the end. -/
def offsetAt (line : List Char) (column : Nat) : Nat :=
  byteSize (splitColumn column line).1

@[simp] theorem units_pos (c : Char) : 0 < units c := by
  unfold units
  split <;> decide

@[simp] theorem byteSize_nil : byteSize [] = 0 := rfl

@[simp] theorem byteSize_cons (c : Char) (line : List Char) :
    byteSize (c :: line) = c.utf8Size + byteSize line := rfl

@[simp] theorem byteSize_append (before after : List Char) :
    byteSize (before ++ after) = byteSize before + byteSize after := by
  induction before with
  | nil => simp
  | cons c rest ih => simp [ih, Nat.add_assoc]

@[simp] theorem width_nil : width [] = 0 := rfl

@[simp] theorem width_cons (c : Char) (line : List Char) :
    width (c :: line) = units c + width line := rfl

@[simp] theorem width_append (before after : List Char) :
    width (before ++ after) = width before + width after := by
  induction before with
  | nil => simp
  | cons c rest ih => simp [ih, Nat.add_assoc]

theorem splitColumn_append (column : Nat) (line : List Char) :
    (splitColumn column line).1 ++ (splitColumn column line).2 = line := by
  induction line generalizing column with
  | nil => rfl
  | cons c rest ih =>
    unfold splitColumn
    split
    · rfl
    · simp [ih]

end Text

namespace Range

/-- The stretch from one column to another on a single line. -/
def onLine (line start stop : Nat) : Range :=
  ⟨⟨line, start⟩, ⟨line, stop⟩⟩

/-- All of a line. -/
def wholeLine (line : Nat) (text : List Char) : Range :=
  onLine line 0 (Text.width text)

/-- The stretch of a slice of a line, `size` bytes from byte `offset` on. -/
def ofSlice (line : Nat) (text : List Char) (offset size : Nat) : Range :=
  onLine line (Text.columnAt text offset) (Text.columnAt text (offset + size))

/-- The stretch of `size` bytes from byte `offset` on, for any two words of 64 bits. Their sum wraps
around, which it never does for a slice. -/
def ofBytes (line : Nat) (text : List Char) (offset size : UInt64) : Range :=
  onLine line (Text.columnAt text offset.toNat) (Text.columnAt text (offset + size).toNat)

theorem ofBytes_eq_ofSlice {offset size : UInt64} (h : offset.toNat + size.toNat < UInt64.size)
    (line : Nat) (text : List Char) :
    ofBytes line text offset size = ofSlice line text offset.toNat size.toNat := by
  rw [ofBytes, ofSlice, UInt64.toNat_add, Nat.mod_eq_of_lt h]

end Range

end ScriptSense
