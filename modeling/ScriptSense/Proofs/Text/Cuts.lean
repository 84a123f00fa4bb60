import ScriptSense.Proofs.Text.Marks
import ScriptSense.Text.Line

/-!
# Cutting a line

A line is cut between two of its characters, and the bytes before a cut tell which one it is. The
byte offset of a cut and its column name each other, and a column that is not at a cut is taken to
the next one. A range that starts and ends on one line, between two of its characters, covers the
text between them.
-/

namespace ScriptSense

namespace Text

section Cuts

variable {before after other rest : List Char}

theorem byteSize_eq_zero {line : List Char} : byteSize line = 0 ↔ line = [] := by
  constructor
  · intro h
    have hlength := length_le_byteSize line
    rw [h] at hlength
    exact List.length_eq_zero_iff.mp (Nat.le_zero.mp hlength)
  · rintro rfl
    rfl

/-- Of two cuts of a line, the one with fewer bytes before it comes first. -/
theorem exists_middle (h : before ++ after = other ++ rest)
    (hle : byteSize before ≤ byteSize other) :
    ∃ middle, other = before ++ middle ∧ after = middle ++ rest := by
  rcases List.append_eq_append_iff.mp h with ⟨middle, hother, hafter⟩ | ⟨middle, hbefore, hrest⟩
  · exact ⟨middle, hother, hafter⟩
  · rw [hbefore, byteSize_append] at hle
    have hnil : middle = [] := byteSize_eq_zero.mp (by omega)
    refine ⟨[], ?_, ?_⟩
    · rw [hbefore, hnil, List.append_nil, List.append_nil]
    · rw [hrest, hnil, List.nil_append, List.nil_append]

/-- A cut of a line is known from the bytes before it. -/
theorem eq_of_byteSize_eq (h : before ++ after = other ++ rest)
    (hsize : byteSize before = byteSize other) : before = other ∧ after = rest := by
  obtain ⟨middle, hother, hafter⟩ := exists_middle h (Nat.le_of_eq hsize)
  have hnil : middle = [] := by
    rw [hother, byteSize_append] at hsize
    exact byteSize_eq_zero.mp (by omega)
  rw [hother, hafter, hnil]
  exact ⟨(List.append_nil before).symm, rfl⟩

end Cuts

theorem columnAt_byteSize (before after : List Char) :
    columnAt (before ++ after) (byteSize before) = width before := by
  have h := columnAt_append_add before after 0
  rwa [columnAt_zero, Nat.add_zero, Nat.add_zero] at h

/-- A byte after a cut has a column after the one of the cut. -/
theorem columnAt_byteSize_lt {before after : List Char} {offset : Nat} (hne : after ≠ [])
    (h : byteSize before < offset) :
    columnAt (before ++ after) (byteSize before) < columnAt (before ++ after) offset := by
  obtain ⟨more, rfl⟩ := Nat.exists_eq_add_of_lt h
  obtain ⟨c, rest, rfl⟩ := List.exists_cons_of_ne_nil hne
  have hpos := units_pos c
  rw [columnAt_byteSize, Nat.add_assoc, columnAt_append_add, columnAt, if_neg (Nat.succ_ne_zero _)]
  omega

theorem splitColumn_width (before after : List Char) :
    splitColumn (width before) (before ++ after) = (before, after) := by
  induction before with
  | nil => cases after <;> rfl
  | cons c rest ih =>
    have hne : units c + width rest ≠ 0 := Nat.ne_of_gt (Nat.add_pos_left (units_pos c) _)
    rw [List.cons_append, splitColumn, width_cons, if_neg hne, Nat.add_sub_cancel_left, ih]

theorem offsetAt_width (before after : List Char) :
    offsetAt (before ++ after) (width before) = byteSize before := by
  rw [offsetAt, splitColumn_width]

theorem offsetAt_mono {column other : Nat} (h : column ≤ other) (line : List Char) :
    offsetAt line column ≤ offsetAt line other := by
  unfold offsetAt
  induction line generalizing column other with
  | nil => exact Nat.le_refl _
  | cons c rest ih =>
    unfold splitColumn
    split
    · exact Nat.zero_le _
    · have hother : other ≠ 0 := by omega
      simp only [if_neg hother, byteSize_cons]
      exact Nat.add_le_add_left (ih (Nat.sub_le_sub_right h _)) _

theorem ofSlice_eq_onLine (number : Nat) (before covered after : List Char) :
    Range.ofSlice number (before ++ (covered ++ after)) (byteSize before) (byteSize covered) =
      Range.onLine number (width before) (width (before ++ covered)) := by
  rw [Range.ofSlice, columnAt_byteSize, ← byteSize_append, ← List.append_assoc, columnAt_byteSize]

section Reading

variable {α : Type} {p : α → Bool} {front back : List α}

theorem takeWhile_append_of_head? (hfront : ∀ x ∈ front, p x)
    (hback : ∀ x ∈ back.head?, p x = false) : (front ++ back).takeWhile p = front := by
  rw [List.takeWhile_append_of_pos hfront]
  cases back with
  | nil => simp
  | cons x rest => simp [hback x rfl]

theorem dropWhile_append_of_head? (hfront : ∀ x ∈ front, p x)
    (hback : ∀ x ∈ back.head?, p x = false) : (front ++ back).dropWhile p = back := by
  rw [List.dropWhile_append_of_pos hfront]
  cases back with
  | nil => simp
  | cons x rest => simp [hback x rfl]

/-- Where a run ends is known from what may stand in it. -/
theorem eq_of_append_eq_of_head? {other rest : List α} (h : front ++ back = other ++ rest)
    (hfront : ∀ x ∈ front, p x) (hother : ∀ x ∈ other, p x) (hback : ∀ x ∈ back.head?, p x = false)
    (hrest : ∀ x ∈ rest.head?, p x = false) : front = other ∧ back = rest := by
  have heq : front = other := by
    rw [← takeWhile_append_of_head? hfront hback, h, takeWhile_append_of_head? hother hrest]
  rw [heq] at h
  exact ⟨heq, List.append_cancel_left h⟩

theorem takeEndWhile_append_of_getLast? (hback : ∀ x ∈ back, p x)
    (hfront : ∀ x ∈ front.getLast?, p x = false) : takeEndWhile p (front ++ back) = back := by
  rw [takeEndWhile, List.reverse_append, takeWhile_append_of_head?, List.reverse_reverse]
  · exact fun x hx ↦ hback x (List.mem_reverse.mp hx)
  · rwa [List.head?_reverse]

theorem dropEndWhile_append_of_getLast? (hback : ∀ x ∈ back, p x)
    (hfront : ∀ x ∈ front.getLast?, p x = false) : dropEndWhile p (front ++ back) = front := by
  rw [dropEndWhile, List.reverse_append, dropWhile_append_of_head?, List.reverse_reverse]
  · exact fun x hx ↦ hback x (List.mem_reverse.mp hx)
  · rwa [List.head?_reverse]

theorem head?_dropWhile (p : α → Bool) (xs : List α) :
    ∀ x ∈ (xs.dropWhile p).head?, p x = false := by
  intro x hx
  have h := List.head?_dropWhile_not p xs
  rwa [Option.mem_def.mp hx] at h

theorem getLast?_dropEndWhile (p : α → Bool) (xs : List α) :
    ∀ x ∈ (dropEndWhile p xs).getLast?, p x = false := by
  intro x hx
  rw [dropEndWhile, List.getLast?_reverse] at hx
  exact head?_dropWhile p xs.reverse x hx

end Reading

end Text

open Text

/-- The range is a stretch of one line of the text, from one cut to another, and `covered` is what
stands there. -/
structure Range.Covers (range : Range) (text : String) (covered : List Char) : Prop where
  oneLine : range.stop.line = range.start.line
  ordered : range.start.column ≤ range.stop.column
  spelled : ∃ before after, (lines text)[range.start.line]? = some (before ++ (covered ++ after)) ∧
    range.start.column = width before ∧ range.stop.column = width (before ++ covered) ∧
    range.stop.column ≤ width (before ++ (covered ++ after))

theorem Range.covers_onLine {text : String} {number : Nat} {before covered after : List Char}
    (h : (lines text)[number]? = some (before ++ (covered ++ after))) :
    (Range.onLine number (width before) (width (before ++ covered))).Covers text covered where
  oneLine := rfl
  ordered := by simp [Range.onLine]
  spelled := ⟨before, after, h, rfl, rfl, by simp [Range.onLine]⟩

theorem Range.covers_wholeLine {text : String} {number : Nat} {line : List Char}
    (h : (lines text)[number]? = some line) : (Range.wholeLine number line).Covers text line := by
  have hcut : (lines text)[number]? = some ([] ++ (line ++ [])) := by simpa using h
  exact Range.covers_onLine hcut

theorem Range.covers_ofSlice {text : String} {number : Nat} {before covered after : List Char}
    (h : (lines text)[number]? = some (before ++ (covered ++ after))) :
    (Range.ofSlice number (before ++ (covered ++ after)) (byteSize before)
      (byteSize covered)).Covers text covered := by
  rw [ofSlice_eq_onLine]
  exact Range.covers_onLine h

end ScriptSense
