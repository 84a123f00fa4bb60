import Mathlib.Data.List.DropRight
import Mathlib.Data.List.TakeWhile
import ScriptSense.Text.Column
import ScriptSense.Text.Line
import ScriptSense.Text.Word

/-!
# Blank margins

A line is its trimmed text with blank characters before and after it. Blank characters are neither
word characters nor marks, so what is recognised on a line does not change with its margins, and
columns move by the width of the margin at the start.
-/

namespace ScriptSense.Text

/-- The blank characters at the start of a line. -/
def margin (line : List Char) : List Char :=
  line.takeWhile isBlank

/-- The column at which the trimmed text of a line starts. -/
def indentWidth (line : List Char) : Nat :=
  width (margin line)

/-- The column at which the trimmed text of a numbered line starts. -/
def indentAt (lines : List (List Char)) (number : Nat) : Nat :=
  indentWidth (lines.getD number [])

theorem isBlankLine_iff {line : List Char} : isBlankLine line ↔ ∀ c ∈ line, isBlank c :=
  List.all_eq_true

@[simp] theorem isBlankLine_nil : isBlankLine [] := rfl

@[simp] theorem isBlankLine_append (before after : List Char) :
    isBlankLine (before ++ after) = (isBlankLine before && isBlankLine after) :=
  List.all_append

theorem isBlankLine_margin (line : List Char) : isBlankLine (margin line) := by
  rw [isBlankLine_iff]
  exact fun c hc ↦ List.mem_takeWhile_imp hc

theorem isBlankLine_takeEndWhile (line : List Char) :
    isBlankLine (takeEndWhile isBlank line) := by
  rw [isBlankLine_iff]
  exact fun c hc ↦ List.mem_rtakeWhile_imp hc

theorem margin_append_trim (line : List Char) :
    margin line ++ trim line ++ takeEndWhile isBlank (trimStart line) = line := by
  rw [List.append_assoc, trim, trimEnd, dropEndWhile_append_takeEndWhile, margin, trimStart,
    List.takeWhile_append_dropWhile]

theorem mem_of_mem_trim {line : List Char} {c : Char} (h : c ∈ trim line) : c ∈ line := by
  rw [← margin_append_trim line]
  exact List.mem_append_left _ (List.mem_append_right _ h)

theorem isBlank_of_getLast?_trim {line : List Char} {c : Char}
    (h : (trim line).getLast? = some c) : isBlank c = false := by
  have hlast := List.head?_dropWhile_not isBlank (trimStart line).reverse
  rw [trim, trimEnd, dropEndWhile, List.getLast?_reverse] at h
  rwa [h] at hlast

theorem isBlank_of_head?_trim {line : List Char} {c : Char} (h : (trim line).head? = some c) :
    isBlank c = false := by
  obtain ⟨rest, hrest⟩ := List.head?_eq_some_iff.mp h
  have hcut := dropEndWhile_append_takeEndWhile isBlank (trimStart line)
  have hhead : (trimStart line).head? = some c := by
    rw [← hcut, ← trimEnd, ← trim, hrest, List.cons_append, List.head?_cons]
  have hnot := List.head?_dropWhile_not isBlank line
  rw [trimStart] at hhead
  rwa [hhead] at hnot

section Margins

variable {before after : List Char}

theorem trimStart_blank_append (hbefore : isBlankLine before) (line : List Char) :
    trimStart (before ++ line) = trimStart line :=
  List.dropWhile_append_of_pos (isBlankLine_iff.mp hbefore)

theorem trimStart_eq_nil (hafter : isBlankLine after) : trimStart after = [] :=
  List.dropWhile_eq_nil_iff.mpr (isBlankLine_iff.mp hafter)

/-- Blank characters after a text stay after it, unless there is no text before them. -/
theorem trimStart_append_blank (hafter : isBlankLine after) (line : List Char) :
    trimStart (line ++ after) = if trimStart line = [] then [] else trimStart line ++ after := by
  have hnil := trimStart_eq_nil hafter
  unfold trimStart at hnil ⊢
  rw [List.dropWhile_append, hnil]
  simp only [List.isEmpty_iff]

theorem trimEnd_append_blank (hafter : isBlankLine after) (line : List Char) :
    trimEnd (line ++ after) = trimEnd line := by
  rw [trimEnd, dropEndWhile, List.reverse_append, List.dropWhile_append_of_pos]
  · rfl
  · intro c hc
    exact isBlankLine_iff.mp hafter c (List.mem_reverse.mp hc)

theorem trim_margins (hbefore : isBlankLine before) (hafter : isBlankLine after)
    (line : List Char) : trim (before ++ line ++ after) = trim line := by
  rw [trim, List.append_assoc, trimStart_blank_append hbefore, trimStart_append_blank hafter]
  split
  · rename_i hnil
    rw [trim, hnil]
  · rw [trimEnd_append_blank hafter, trim]

end Margins

theorem trim_of_isBlankLine {line : List Char} (h : isBlankLine line) : trim line = [] := by
  rw [trim, trimStart_eq_nil h]
  rfl

theorem trim_eq_nil_iff {line : List Char} : trim line = [] ↔ isBlankLine line := by
  refine ⟨fun h ↦ ?_, trim_of_isBlankLine⟩
  rw [← margin_append_trim line, h, isBlankLine_append, isBlankLine_append, isBlankLine_margin,
    isBlankLine_takeEndWhile]
  rfl

theorem trimStart_eq_self {line : List Char} (h : ∀ c ∈ line.head?, isBlank c = false) :
    trimStart line = line := by
  cases line with
  | nil => rfl
  | cons c rest => exact List.dropWhile_cons_of_neg (by simp [h c rfl])

theorem trimEnd_eq_self {line : List Char} (h : ∀ c ∈ line.getLast?, isBlank c = false) :
    trimEnd line = line := by
  have hreverse : trimStart line.reverse = line.reverse := by
    apply trimStart_eq_self
    rwa [List.head?_reverse]
  calc
    trimEnd line = (trimStart line.reverse).reverse := rfl
    _ = line := by rw [hreverse, List.reverse_reverse]

theorem trim_eq_self {line : List Char} (hhead : ∀ c ∈ line.head?, isBlank c = false)
    (hlast : ∀ c ∈ line.getLast?, isBlank c = false) : trim line = line := by
  rw [trim, trimStart_eq_self hhead, trimEnd_eq_self hlast]

/-- A text keeps the end that is not blank when it is trimmed. -/
theorem exists_trim_append_singleton {c : Char} (h : isBlank c = false) (line : List Char) :
    ∃ rest, trim (line ++ [c]) = rest ++ [c] := by
  have hstart : ∃ rest, trimStart (line ++ [c]) = rest ++ [c] := by
    have hc : trimStart [c] = [c] := trimStart_eq_self (by simpa using h)
    unfold trimStart at hc ⊢
    rw [List.dropWhile_append, hc]
    split
    · exact ⟨[], rfl⟩
    · exact ⟨_, rfl⟩
  obtain ⟨rest, hrest⟩ := hstart
  refine ⟨rest, ?_⟩
  rw [trim, hrest]
  exact trimEnd_eq_self (by simpa using h)

@[simp] theorem trim_trim (line : List Char) : trim (trim line) = trim line := by
  conv_rhs => rw [← margin_append_trim line]
  rw [trim_margins (isBlankLine_margin line) (isBlankLine_takeEndWhile _)]

/-- Nothing but blank characters stands before the text on the line. -/
def StartsWith (front line : List Char) : Prop :=
  ∃ before rest, isBlankLine before ∧ line = before ++ (front ++ rest)

/-- A text with no blank character at either end starts a line if the trimmed line begins with
it. -/
theorem prefix_trim_iff {front line : List Char} (hhead : ∀ c ∈ front.head?, isBlank c = false)
    (hlast : ∀ c ∈ front.getLast?, isBlank c = false) :
    front <+: trim line ↔ StartsWith front line := by
  constructor
  · rintro ⟨rest, hrest⟩
    refine ⟨margin line, rest ++ takeEndWhile isBlank (trimStart line), isBlankLine_margin line, ?_⟩
    conv_lhs => rw [← margin_append_trim line, ← hrest]
    simp only [List.append_assoc]
  · rintro ⟨before, rest, hbefore, rfl⟩
    cases front with
    | nil => exact List.nil_prefix
    | cons c front =>
      have hstart : trimStart (before ++ (c :: front ++ rest)) = c :: front ++ rest := by
        rw [trimStart_blank_append hbefore, trimStart, List.cons_append,
          List.dropWhile_cons_of_neg (by simp [hhead c rfl])]
      have hcut := dropEndWhile_append_takeEndWhile isBlank (c :: front ++ rest)
      rw [trim, hstart, trimEnd]
      rcases List.append_eq_append_iff.mp hcut with ⟨middle, hfront, htail⟩ | ⟨middle, hfront, -⟩
      · -- What the trimmed line lacks of the text is blank, and the text does not end in blanks.
        have hmiddle : middle = [] := by
          rw [← List.getLast?_eq_none_iff, Option.eq_none_iff_forall_not_mem]
          intro d hd
          have hblank : isBlank d := isBlankLine_iff.mp (isBlankLine_takeEndWhile _) d
            (htail ▸ List.mem_append_left _ (List.mem_of_getLast? hd))
          have hnot := hlast d (by rw [hfront, List.getLast?_append, Option.mem_def.mp hd]; rfl)
          rw [hblank] at hnot
          contradiction
        rw [hmiddle, List.append_nil] at hfront
        exact ⟨[], (List.append_nil _).trans hfront⟩
      · rw [hfront]
        exact List.prefix_append _ _

theorem startsWith_iff {front line : List Char} (hblank : ∀ c ∈ front, isBlank c = false) :
    front.isPrefixOf (trim line) ↔ StartsWith front line := by
  rw [List.isPrefixOf_iff_prefix, prefix_trim_iff]
  · exact fun c hc ↦ hblank c (List.mem_of_head? hc)
  · exact fun c hc ↦ hblank c (List.mem_of_getLast? hc)

/-- Of two texts that start the same line, one starts with the other. -/
theorem StartsWith.not_startsWith {first second line : List Char} (h : StartsWith first line)
    (hblank : ∀ c ∈ first ++ second, isBlank c = false)
    (hapart : (first.isPrefixOf second || second.isPrefixOf first) = false) :
    ¬StartsWith second line := by
  obtain ⟨hfirst, hsecond⟩ := List.forall_mem_append.mp hblank
  intro hother
  rw [← startsWith_iff hfirst, List.isPrefixOf_iff_prefix] at h
  rw [← startsWith_iff hsecond, List.isPrefixOf_iff_prefix] at hother
  rw [← Bool.not_eq_true, Bool.or_eq_true, List.isPrefixOf_iff_prefix,
    List.isPrefixOf_iff_prefix] at hapart
  exact hapart (List.prefix_or_prefix_of_prefix h hother)

section Numbered

variable {all rest : List (List Char)} {number : Nat} {line : List Char}

theorem drop_succ (h : all.drop number = line :: rest) : all.drop (number + 1) = rest := by
  rw [← List.drop_drop, h, List.drop_one, List.tail_cons]

theorem getElem?_of_drop (h : all.drop number = line :: rest) : all[number]? = some line := by
  rw [← List.head?_drop, h, List.head?_cons]

theorem getD_of_drop (h : all.drop number = line :: rest) : all.getD number [] = line := by
  rw [List.getD_eq_getElem?_getD, getElem?_of_drop h, Option.getD_some]

theorem indentAt_of_drop (h : all.drop number = line :: rest) :
    indentAt all number = indentWidth line := by
  rw [indentAt, getD_of_drop h]

end Numbered

theorem toNat_of_isAlpha {c : Char} (h : c.isAlpha) :
    65 ≤ c.toNat ∧ c.toNat ≤ 90 ∨ 97 ≤ c.toNat ∧ c.toNat ≤ 122 := by
  rcases Bool.or_eq_true_iff.mp h with hupper | hlower
  · have hbounds : 'A'.val ≤ c.val ∧ c.val ≤ 'Z'.val := of_decide_eq_true hupper
    exact .inl (hbounds.imp UInt32.le_iff_toNat_le.mp UInt32.le_iff_toNat_le.mp)
  · obtain ⟨hlow, hhigh⟩ := Bool.and_eq_true_iff.mp hlower
    exact .inr ⟨UInt32.le_iff_toNat_le.mp (of_decide_eq_true hlow),
      UInt32.le_iff_toNat_le.mp (of_decide_eq_true hhigh)⟩

/-- Word characters lie between the digit zero and the letter `z`. -/
theorem toNat_of_isWordChar {c : Char} (h : isWordChar c) : 0x30 ≤ c.toNat ∧ c.toNat ≤ 0x7A := by
  rw [isWordChar, Bool.or_eq_true, beq_iff_eq] at h
  rcases h with h | rfl
  · rcases Bool.or_eq_true_iff.mp h with halpha | hdigit
    · have hbounds := toNat_of_isAlpha halpha
      omega
    · have hbounds : 48 ≤ c.toNat ∧ c.toNat ≤ 57 := Char.isDigit_iff_toNat.mp hdigit
      omega
  · decide

theorem isBlank_of_isWordChar {c : Char} (h : isWordChar c) : isBlank c = false := by
  have hbounds := toNat_of_isWordChar h
  simp only [isBlank, blankStretches, List.any_cons, List.any_nil, Bool.or_eq_false_iff,
    Bool.and_eq_false_iff, decide_eq_false_iff_not, and_true]
  omega

theorem isWordChar_of_isBlank {c : Char} (h : isBlank c) : isWordChar c = false := by
  cases hword : isWordChar c with
  | false => rfl
  | true => exact absurd h (by simp [isBlank_of_isWordChar hword])

/-- A mark that is not blank does not stand in a blank margin. -/
theorem notMem_of_isBlankLine {margin : List Char} (h : isBlankLine margin) {mark : Char}
    (hmark : isBlank mark = false) : mark ∉ margin := by
  intro hmem
  exact absurd (isBlankLine_iff.mp h mark hmem) (by simp [hmark])

theorem mem_trim_of_mem {line : List Char} {mark : Char} (h : mark ∈ line)
    (hmark : isBlank mark = false) : mark ∈ trim line := by
  rw [← margin_append_trim line, List.mem_append, List.mem_append] at h
  rcases h with (h | h) | h
  · exact absurd h (notMem_of_isBlankLine (isBlankLine_margin line) hmark)
  · exact h
  · exact absurd h (notMem_of_isBlankLine (isBlankLine_takeEndWhile _) hmark)

theorem isBlankLine_of_mem {line : List Char} {mark : Char} (h : mark ∈ line)
    (hmark : isBlank mark = false) : isBlankLine line = false := by
  rw [← Bool.not_eq_true]
  exact fun hline ↦ notMem_of_isBlankLine hline hmark h

theorem StartsWith.isBlankLine {front line : List Char} (h : StartsWith front line)
    (hne : front ≠ []) (hblank : ∀ c ∈ front, isBlank c = false) : isBlankLine line = false := by
  obtain ⟨before, rest, -, rfl⟩ := h
  obtain ⟨c, hc⟩ := List.exists_mem_of_ne_nil front hne
  exact isBlankLine_of_mem (List.mem_append_right _ (List.mem_append_left _ hc)) (hblank c hc)

end ScriptSense.Text
