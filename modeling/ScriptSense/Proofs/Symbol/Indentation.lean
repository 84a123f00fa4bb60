import ScriptSense.Proofs.Script.Recognition
import ScriptSense.Symbol.Index

/-!
# A scan follows the indentation

A scan of lines finds the declarations that a scan of the trimmed lines finds. Each of them stands
further to the right by the indentation of its line.
-/

namespace ScriptSense

open Text Script

namespace Script.DocBlock

theorem drop_length_split (lines : List (List Char)) :
    lines.drop (split lines).1.length = (split lines).2 := by
  have h := congrArg (List.drop (split lines).1.length) (split_append lines)
  rwa [List.drop_left, eq_comm] at h

theorem split_map_trim (lines : List (List Char)) :
    split (lines.map trim) = ((split lines).1.map trim, (split lines).2.map trim) := by
  induction lines with
  | nil => rfl
  | cons line rest ih =>
    rw [List.map_cons, split, ignoresMargins_closesDoc.trim, split]
    split
    · rfl
    · rw [ih]
      rfl

theorem content_map_trim (lines : List (List Char)) : content (lines.map trim) = content lines := by
  have hclean : cleanLine ∘ trim = cleanLine := by
    funext line
    rw [Function.comp_apply, cleanLine, trim_trim, cleanLine]
  rw [content, List.map_map, hclean, content]

end Script.DocBlock

namespace Symbol

section NameColumn

variable {name before core after : List Char}

theorem firstOffset_blank_append (hne : name ≠ []) (hname : ∀ c ∈ name, isWordChar c)
    (hbefore : isBlankLine before) (line : List Char) :
    firstOffset name (before ++ line) = byteSize before + firstOffset name line := by
  induction before with
  | nil => simp
  | cons c rest ih =>
    obtain ⟨hc, hrest⟩ := Bool.and_eq_true_iff.mp hbefore
    have hstart : name.isPrefixOf (c :: (rest ++ line)) = false := by
      obtain ⟨d, others, rfl⟩ := List.exists_cons_of_ne_nil hne
      have hd : d ≠ c := by
        rintro rfl
        exact absurd (hname d List.mem_cons_self) (by simp [isWordChar_of_isBlank hc])
      rw [List.isPrefixOf_cons_cons, beq_false_of_ne hd, Bool.false_and]
    rw [List.cons_append, firstOffset, hstart, if_neg Bool.false_ne_true, ih hrest, byteSize_cons,
      Nat.add_assoc]

section Stop

variable (hname : ∀ c ∈ name, isWordChar c) (hafter : ∀ c ∈ after.head?, isWordChar c = false)
include hname hafter

/-- A word does not go on past a character that stands in no word. -/
theorem isPrefixOf_append_of_head? (line : List Char) :
    name.isPrefixOf (line ++ after) = name.isPrefixOf line := by
  rw [Bool.eq_iff_iff, List.isPrefixOf_iff_prefix, List.isPrefixOf_iff_prefix]
  constructor
  · intro h
    rcases List.prefix_or_prefix_of_prefix h (List.prefix_append line after) with hle | ⟨more, rfl⟩
    · exact hle
    · -- What the word has beyond the line begins with the character that stops it.
      obtain ⟨rest, hrest⟩ := (List.prefix_append_right_inj line).mp h
      cases more with
      | nil => simp
      | cons d more =>
        have hd := hname d (List.mem_append_right line List.mem_cons_self)
        rw [hafter d (by rw [← hrest]; rfl)] at hd
        contradiction
  · exact fun h ↦ h.trans (List.prefix_append line after)

theorem firstOffset_append_of_infix (hne : name ≠ []) (hcore : name <:+: core) :
    firstOffset name (core ++ after) = firstOffset name core := by
  induction core with
  | nil => exact absurd (List.eq_nil_of_infix_nil hcore) hne
  | cons c rest ih =>
    have hstart := isPrefixOf_append_of_head? hname hafter (c :: rest)
    rw [List.cons_append] at hstart
    rw [List.cons_append, firstOffset, hstart, firstOffset]
    split
    · rfl
    · rename_i hprefix
      have hrest : name <:+: rest := by
        rcases List.infix_cons_iff.mp hcore with h | h
        · exact absurd (List.isPrefixOf_iff_prefix.mpr h) hprefix
        · exact h
      rw [ih hrest]

theorem firstOffset_append_of_not_infix (hcore : ¬name <:+: core) :
    firstOffset name (core ++ after) = byteSize core + firstOffset name after := by
  induction core with
  | nil => rw [List.nil_append, byteSize_nil, Nat.zero_add]
  | cons c rest ih =>
    have hstart := isPrefixOf_append_of_head? hname hafter (c :: rest)
    rw [List.infix_cons_iff, not_or, ← List.isPrefixOf_iff_prefix] at hcore
    rw [List.cons_append] at hstart
    rw [List.cons_append, firstOffset, hstart, if_neg hcore.1, ih hcore.2, byteSize_cons,
      Nat.add_assoc]

end Stop

theorem firstOffset_le (name line : List Char) : firstOffset name line ≤ byteSize line := by
  induction line with
  | nil => exact Nat.le_refl 0
  | cons c rest ih =>
    rw [firstOffset, byteSize_cons]
    split
    · exact Nat.zero_le _
    · exact Nat.add_le_add_left ih _

end NameColumn

/-- A declared name is found in the trimmed text of its line. -/
theorem nameColumn_eq {line : List Char} {name : String} {kind : SymbolKind}
    (h : shape line = .declaration name kind) :
    nameColumn line name = indentWidth line + nameColumn (trim line) name := by
  rw [← ignoresMargins_shape.trim] at h
  obtain ⟨hne, hname, hcore⟩ := word_of_shape h
  have hoffset (tail : List Char) (htail : isBlankLine tail) :
      firstOffset name.toList (margin line ++ (trim line ++ tail)) =
        byteSize (margin line) + firstOffset name.toList (trim line) := by
    rw [firstOffset_blank_append hne hname (isBlankLine_margin line),
      firstOffset_append_of_infix hname (isWordChar_head?_of_blank htail) hne hcore]
  conv_lhs => rw [← margin_append_trim line]
  calc
    _ = width (margin line) + columnAt (trim line ++ takeEndWhile isBlank (trimStart line))
          (firstOffset name.toList (trim line)) := by
      rw [nameColumn, List.append_assoc, hoffset _ (isBlankLine_takeEndWhile _),
        columnAt_append_add]
    _ = width (margin line) + columnAt (trim line) (firstOffset name.toList (trim line)) := by
      rw [columnAt_append_of_le (firstOffset_le name.toList (trim line))]
    _ = _ := rfl

/-- The occurrence as it is once its line is indented. -/
def indented (lines : List (List Char)) (occurrence : Occurrence) : Occurrence :=
  { occurrence with column := indentAt lines occurrence.line + occurrence.column }

/-- The rest of a text is scanned like its trimmed lines. The whole text stays in sight, since an
occurrence tells the number of its line only. -/
theorem scanFrom_eq_map_indented {all lines : List (List Char)} {number : Nat}
    (h : all.drop number = lines) (uri : String) (pending : Option String) :
    scanFrom uri number pending lines =
      (scanFrom uri number pending (lines.map trim)).map (indented all) := by
  fun_induction scanFrom uri number pending lines with
  | case1 => rw [List.map_nil, scanFrom, List.map_nil]
  | case2 number pending line rest hshape block ih =>
    have hafter : all.drop (number + block.length) = (DocBlock.split (line :: rest)).2 := by
      rw [← List.drop_drop, h]
      exact DocBlock.drop_length_split (line :: rest)
    rw [List.map_cons, scanFrom, ignoresMargins_shape.trim, hshape]
    simp only
    rw [← List.map_cons, DocBlock.split_map_trim, DocBlock.content_map_trim, List.length_map,
      ih hafter]
  | case3 number pending line rest name kind hshape ih =>
    rw [List.map_cons, scanFrom, ignoresMargins_shape.trim, hshape]
    simp only [List.map_cons]
    rw [ih (drop_succ h), nameColumn_eq hshape, indented, indentAt_of_drop h]
  | case4 number pending line rest hshape ih =>
    rw [List.map_cons, scanFrom, ignoresMargins_shape.trim, hshape]
    exact ih (drop_succ h)
  | case5 number pending line rest hshape ih =>
    rw [List.map_cons, scanFrom, ignoresMargins_shape.trim, hshape]
    exact ih (drop_succ h)
  | case6 number pending line rest hshape ih =>
    rw [List.map_cons, scanFrom, ignoresMargins_shape.trim, hshape]
    exact ih (drop_succ h)

end Symbol

end ScriptSense
