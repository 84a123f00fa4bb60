import ScriptSense.Proofs.Text.Trim
import ScriptSense.Text.Word

/-!
# What stands between blank margins

The words, the literals and the marks of a line with blank margins are those of the line without the
margins, further to the right by the size of the first margin.
-/

namespace ScriptSense

/-- A range moved to the right. -/
def Range.moveRight (columns : Nat) (range : Range) : Range :=
  ⟨⟨range.start.line, range.start.column + columns⟩,
    ⟨range.stop.line, range.stop.column + columns⟩⟩

namespace Text

@[simp] theorem columnAt_zero (line : List Char) : columnAt line 0 = 0 := by
  cases line <;> rfl

/-- The column of an offset in the second half of a line. -/
theorem columnAt_append_add (before line : List Char) (offset : Nat) :
    columnAt (before ++ line) (byteSize before + offset) = width before + columnAt line offset := by
  induction before with
  | nil => simp
  | cons c rest ih =>
    have hpos := c.utf8Size_pos
    have hne : c.utf8Size + byteSize rest + offset ≠ 0 := by omega
    have hrest : c.utf8Size + byteSize rest + offset - c.utf8Size = byteSize rest + offset := by
      omega
    rw [List.cons_append, byteSize_cons, columnAt, if_neg hne, hrest, ih, width_cons, Nat.add_assoc]

/-- The column of an offset in the first half of a line. -/
theorem columnAt_append_of_le {line : List Char} {offset : Nat} (h : offset ≤ byteSize line)
    (after : List Char) : columnAt (line ++ after) offset = columnAt line offset := by
  induction line generalizing offset with
  | nil =>
    have hzero : offset = 0 := by simpa using h
    rw [hzero, columnAt_zero, columnAt_zero]
  | cons c rest ih =>
    rw [byteSize_cons] at h
    simp only [List.cons_append, columnAt]
    split
    · rfl
    · rw [ih (by omega)]

theorem ofSlice_margins {core : List Char} {offset size : Nat} (h : offset + size ≤ byteSize core)
    (number : Nat) (before after : List Char) :
    Range.ofSlice number (before ++ core ++ after) (byteSize before + offset) size =
      (Range.ofSlice number core offset size).moveRight (width before) := by
  have hcolumn {place : Nat} (hplace : place ≤ byteSize core) :
      columnAt (before ++ core ++ after) (byteSize before + place) =
        columnAt core place + width before := by
    calc
      _ = columnAt (before ++ (core ++ after)) (byteSize before + place) := by
        rw [List.append_assoc]
      _ = width before + columnAt (core ++ after) place := columnAt_append_add before _ place
      _ = width before + columnAt core place := by rw [columnAt_append_of_le hplace]
      _ = _ := Nat.add_comm _ _
  rw [Range.ofSlice, Nat.add_assoc, hcolumn h, hcolumn (by omega)]
  rfl

section Words

variable {before after : List Char}

theorem takeWhile_isWordChar_append (hafter : ∀ c ∈ after.head?, isWordChar c = false)
    (line : List Char) : (line ++ after).takeWhile isWordChar = line.takeWhile isWordChar := by
  induction line with
  | nil =>
    cases after with
    | nil => rfl
    | cons c rest => simp [hafter c rfl]
  | cons c rest ih =>
    rw [List.cons_append, List.takeWhile_cons, List.takeWhile_cons, ih]

theorem dropWhile_isWordChar_append (hafter : ∀ c ∈ after.head?, isWordChar c = false)
    (line : List Char) :
    (line ++ after).dropWhile isWordChar = line.dropWhile isWordChar ++ after := by
  induction line with
  | nil =>
    cases after with
    | nil => rfl
    | cons c rest => simp [hafter c rfl]
  | cons c rest ih =>
    rw [List.cons_append, List.dropWhile_cons, List.dropWhile_cons, ih]
    split <;> rfl

theorem isWordChar_head?_of_blank (hafter : isBlankLine after) :
    ∀ c ∈ after.head?, isWordChar c = false := by
  intro c hc
  exact isWordChar_of_isBlank (isBlankLine_iff.mp hafter c (List.mem_of_head? hc))

theorem wordsFrom_append_of_not_isWordChar (hbefore : ∀ c ∈ before, isWordChar c = false)
    (offset : Nat) (line : List Char) :
    wordsFrom offset (before ++ line) = wordsFrom (offset + byteSize before) line := by
  induction before generalizing offset with
  | nil => simp
  | cons c rest ih =>
    obtain ⟨hc, hrest⟩ := List.forall_mem_cons.mp hbefore
    rw [List.cons_append, wordsFrom, hc, if_neg Bool.false_ne_true, ih hrest, byteSize_cons,
      Nat.add_assoc]

theorem wordsFrom_blank_append (hbefore : isBlankLine before) (offset : Nat) (line : List Char) :
    wordsFrom offset (before ++ line) = wordsFrom (offset + byteSize before) line :=
  wordsFrom_append_of_not_isWordChar
    (fun c hc ↦ isWordChar_of_isBlank (isBlankLine_iff.mp hbefore c hc)) offset line

theorem wordsFrom_append_blank (hafter : isBlankLine after) (offset : Nat) (line : List Char) :
    wordsFrom offset (line ++ after) = wordsFrom offset line := by
  fun_induction wordsFrom offset line with
  | case1 offset =>
    have h := wordsFrom_blank_append hafter offset []
    rwa [List.append_nil, wordsFrom] at h
  | case2 offset c rest hc run ih =>
    have hstop := isWordChar_head?_of_blank hafter
    rw [List.cons_append, wordsFrom, if_pos hc, takeWhile_isWordChar_append hstop,
      dropWhile_isWordChar_append hstop]
    exact congrArg (List.cons _) ih
  | case3 offset c rest hc ih =>
    rw [List.cons_append, wordsFrom, if_neg hc, ih]

def Word.moveRight (bytes : Nat) (word : Word) : Word :=
  { word with offset := bytes + word.offset }

theorem wordsFrom_add (bytes offset : Nat) (line : List Char) :
    wordsFrom (bytes + offset) line = (wordsFrom offset line).map (Word.moveRight bytes) := by
  fun_induction wordsFrom offset line with
  | case1 offset => rw [wordsFrom, List.map_nil]
  | case2 offset c rest hc run ih =>
    rw [wordsFrom, if_pos hc, List.map_cons, ← ih, ← Nat.add_assoc]
    rfl
  | case3 offset c rest hc ih => rw [wordsFrom, if_neg hc, Nat.add_assoc, ih]

theorem words_margins (hbefore : isBlankLine before) (hafter : isBlankLine after)
    (core : List Char) :
    words (before ++ core ++ after) = (words core).map (Word.moveRight (byteSize before)) := by
  calc
    _ = wordsFrom 0 (before ++ core) := wordsFrom_append_blank hafter 0 (before ++ core)
    _ = wordsFrom (0 + byteSize before) core := wordsFrom_blank_append hbefore 0 core
    _ = wordsFrom (byteSize before + 0) core := by rw [Nat.add_comm]
    _ = _ := wordsFrom_add (byteSize before) 0 core

theorem identifiers_margins (hbefore : isBlankLine before) (hafter : isBlankLine after)
    (core : List Char) :
    identifiers (before ++ core ++ after) =
      (identifiers core).map (Word.moveRight (byteSize before)) := by
  rw [identifiers, words_margins hbefore hafter, List.filter_map]
  rfl

theorem identifiers_eq_map_moveRight (line : List Char) :
    identifiers line = (identifiers (trim line)).map (Word.moveRight (byteSize (margin line))) := by
  conv_lhs => rw [← margin_append_trim line]
  rw [identifiers_margins (isBlankLine_margin line) (isBlankLine_takeEndWhile _)]

end Words

theorem byteSize_of_all_isWordChar {run : List Char} (h : ∀ c ∈ run, isWordChar c) :
    byteSize run = run.length := by
  induction run with
  | nil => rfl
  | cons c rest ih =>
    have hbounds := toNat_of_isWordChar (h c List.mem_cons_self)
    have hsize : c.utf8Size = 1 := by
      rw [Char.utf8Size_eq_one_iff]
      exact UInt32.le_iff_toNat_le.mpr (Nat.le_trans hbounds.2 (by decide))
    have hrest := ih fun d hd ↦ h d (List.mem_cons_of_mem _ hd)
    rw [byteSize_cons, List.length_cons]
    omega

/-- A word lies on its line. -/
theorem offset_add_length_le_of_mem_wordsFrom {offset : Nat} {line : List Char} {word : Word}
    (h : word ∈ wordsFrom offset line) :
    word.offset + word.chars.length ≤ offset + byteSize line := by
  fun_induction wordsFrom offset line with
  | case1 offset => simp at h
  | case2 offset c rest hc run ih =>
    have hrun : byteSize run = run.length := by
      apply byteSize_of_all_isWordChar
      intro d hd
      rcases List.mem_cons.mp hd with rfl | hd
      · exact hc
      · exact List.mem_takeWhile_imp hd
    have hline : byteSize run + byteSize (rest.dropWhile isWordChar) = byteSize (c :: rest) := by
      rw [← byteSize_append, List.cons_append, List.takeWhile_append_dropWhile]
    rcases List.mem_cons.mp h with rfl | h
    · simp only
      omega
    · have hword := ih h
      omega
  | case3 offset c rest hc ih =>
    have hword := ih h
    rw [byteSize_cons]
    omega

theorem offset_add_length_le_of_mem_identifiers {line : List Char} {word : Word}
    (h : word ∈ identifiers line) : word.offset + word.chars.length ≤ byteSize line := by
  have hword := offset_add_length_le_of_mem_wordsFrom (List.mem_of_mem_filter h)
  rwa [Nat.zero_add] at hword

end Text

end ScriptSense
