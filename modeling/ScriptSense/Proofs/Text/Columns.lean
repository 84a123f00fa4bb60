import Mathlib.Order.Bounds.Defs
import Mathlib.Order.Monotone.Defs
import ScriptSense.Proofs.Text.Cuts

/-!
# Columns and byte offsets correspond

Every cut of a line is read back from its column. Any other column is taken to the first cut after
it: one inside a surrogate pair to the end of the pair, and one past the line to the end of the
line. Both readings keep the order, so a stretch of bytes does not end before it starts, wherever
its ends are, unless the end is too large for a word and wraps around.
-/

namespace ScriptSense

/-- Positions are in the order of their lines, and on one line in the order of their columns. -/
instance : LE Position where
  le a b := a.line < b.line ∨ a.line = b.line ∧ a.column ≤ b.column

theorem Position.le_def {a b : Position} :
    a ≤ b ↔ a.line < b.line ∨ a.line = b.line ∧ a.column ≤ b.column :=
  Iff.rfl

instance (a b : Position) : Decidable (a ≤ b) :=
  decidable_of_iff' _ Position.le_def

namespace Text

/-- A whole number of characters takes up the bytes before the offset. -/
def IsCut (line : List Char) (offset : Nat) : Prop :=
  ∃ before after, line = before ++ after ∧ offset = byteSize before

variable {line before after : List Char} {c : Char} {column offset : Nat}

theorem columnAt_mono (line : List Char) : Monotone (columnAt line) := by
  intro offset other h
  induction line generalizing offset other with
  | nil => exact Nat.le_refl 0
  | cons c rest ih =>
    rw [columnAt, columnAt]
    by_cases hzero : offset = 0
    · rw [if_pos hzero]
      exact Nat.zero_le _
    · have hother : other ≠ 0 := by omega
      rw [if_neg hzero, if_neg hother]
      exact Nat.add_le_add_left (ih (Nat.sub_le_sub_right h _)) _

theorem columnAt_le_width (line : List Char) (offset : Nat) :
    columnAt line offset ≤ width line := by
  induction line generalizing offset with
  | nil => exact Nat.le_refl 0
  | cons c rest ih =>
    rw [columnAt, width_cons]
    split
    · exact Nat.zero_le _
    · exact Nat.add_le_add_left (ih _) _

/-- A cut is read back from its column. -/
theorem offsetAt_columnAt (h : IsCut line offset) :
    offsetAt line (columnAt line offset) = offset := by
  obtain ⟨before, after, rfl, rfl⟩ := h
  rw [columnAt_byteSize, offsetAt_width]

theorem start_ofBytes_le {offset size : UInt64} (h : offset.toNat + size.toNat < UInt64.size)
    (number : Nat) (line : List Char) :
    (Range.ofBytes number line offset size).start ≤
      (Range.ofBytes number line offset size).stop := by
  rw [Range.ofBytes_eq_ofSlice h]
  exact .inr ⟨rfl, columnAt_mono line (Nat.le_add_right offset.toNat size.toNat)⟩

theorem stop_ofBytes_le (number : Nat) (line : List Char) (offset size : UInt64) :
    (Range.ofBytes number line offset size).stop ≤ (Range.wholeLine number line).stop :=
  .inr ⟨rfl, columnAt_le_width line (offset + size).toNat⟩

theorem isCut_offsetAt (line : List Char) (column : Nat) : IsCut line (offsetAt line column) :=
  ⟨_, _, (splitColumn_append column line).symm, rfl⟩

theorem IsCut.le_byteSize (h : IsCut line offset) : offset ≤ byteSize line := by
  obtain ⟨before, after, rfl, rfl⟩ := h
  rw [byteSize_append]
  exact Nat.le_add_right _ _

/-- The cut of a column does not come before the column, unless the line ends there. -/
theorem min_le_width_splitColumn (line : List Char) (column : Nat) :
    min column (width line) ≤ width (splitColumn column line).1 := by
  induction line generalizing column with
  | nil => exact Nat.min_le_right _ _
  | cons c rest ih =>
    have hrest := ih (column - units c)
    unfold splitColumn
    split
    · rename_i hzero
      rw [hzero, Nat.zero_min]
      exact Nat.zero_le _
    · simp only [width_cons]
      omega

theorem min_le_columnAt_offsetAt (line : List Char) (column : Nat) :
    min column (width line) ≤ columnAt line (offsetAt line column) := by
  have hcolumn := columnAt_byteSize (splitColumn column line).1 (splitColumn column line).2
  rw [splitColumn_append] at hcolumn
  rw [offsetAt, hcolumn]
  exact min_le_width_splitColumn line column

/-- A column past the end of the line is taken to the end. -/
theorem offsetAt_of_width_le (h : width line ≤ column) : offsetAt line column = byteSize line := by
  have hend := offsetAt_width line []
  rw [List.append_nil] at hend
  apply Nat.le_antisymm (isCut_offsetAt line column).le_byteSize
  rw [← hend]
  exact offsetAt_mono h line

theorem offsetAt_min_width (line : List Char) (column : Nat) :
    offsetAt line (min column (width line)) = offsetAt line column := by
  rcases Nat.le_total column (width line) with h | h
  · rw [Nat.min_eq_left h]
  · rw [Nat.min_eq_right h, offsetAt_of_width_le (Nat.le_refl _), offsetAt_of_width_le h]

/-- A column is taken to the first cut that does not come before it. -/
theorem isLeast_offsetAt (line : List Char) (column : Nat) :
    IsLeast {offset | IsCut line offset ∧ min column (width line) ≤ columnAt line offset}
      (offsetAt line column) := by
  refine ⟨⟨isCut_offsetAt line column, min_le_columnAt_offsetAt line column⟩, ?_⟩
  rintro offset ⟨hcut, hle⟩
  calc
    offsetAt line column = offsetAt line (min column (width line)) :=
      (offsetAt_min_width line column).symm
    _ ≤ offsetAt line (columnAt line offset) := offsetAt_mono hle line
    _ = offset := offsetAt_columnAt hcut

theorem splitColumn_zero (line : List Char) : splitColumn 0 line = ([], line) := by
  cases line <;> rfl

/-- A column after the start of a character, and not after its end, is taken to its end. -/
theorem splitColumn_within (hstart : width before < column)
    (hstop : column ≤ width before + units c) (after : List Char) :
    splitColumn column (before ++ c :: after) = (before ++ [c], after) := by
  induction before generalizing column with
  | nil =>
    rw [width_nil] at hstart hstop
    have hspent : column - units c = 0 := by omega
    rw [List.nil_append, splitColumn, if_neg (Nat.ne_of_gt hstart), hspent, splitColumn_zero]
    rfl
  | cons d rest ih =>
    rw [width_cons] at hstart hstop
    rw [List.cons_append, splitColumn, if_neg (by omega),
      @ih (column - units d) (by omega) (by omega)]
    rfl

theorem offsetAt_within (hstart : width before < column) (hstop : column ≤ width before + units c)
    (after : List Char) :
    offsetAt (before ++ c :: after) column = byteSize before + c.utf8Size := by
  rw [offsetAt, splitColumn_within hstart hstop, byteSize_append]
  rfl

end Text

end ScriptSense
