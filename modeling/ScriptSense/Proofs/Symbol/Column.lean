import Mathlib.Data.List.Infix
import ScriptSense.Proofs.Script.Shapes
import ScriptSense.Proofs.Symbol.Indentation
import ScriptSense.Proofs.Text.Cuts

/-!
# The column of a declared name

An occurrence tells the line and the column of a declaration. The line is one that declares the
name, and the column is the one at which the name can first be read on it. This is where the name is
declared, unless the name can be read within the keyword before it. There are nine such names.
-/

namespace ScriptSense.Symbol

open Text Script

/-- The first place of a name that can be read on a line. -/
theorem exists_cut_firstOffset {name line : List Char} (h : name <:+: line) :
    ∃ before after, line = before ++ (name ++ after) ∧ firstOffset name line = byteSize before := by
  induction line with
  | nil => exact ⟨[], [], by rw [List.eq_nil_of_infix_nil h]; rfl, rfl⟩
  | cons c rest ih =>
    rw [firstOffset]
    split
    · rename_i hprefix
      obtain ⟨after, hafter⟩ := List.isPrefixOf_iff_prefix.mp hprefix
      exact ⟨[], after, hafter.symm, rfl⟩
    · rename_i hprefix
      have hrest : name <:+: rest := by
        rcases List.infix_cons_iff.mp h with h | h
        · exact absurd (List.isPrefixOf_iff_prefix.mpr h) hprefix
        · exact h
      obtain ⟨before, after, rfl, hoffset⟩ := ih hrest
      exact ⟨c :: before, after, rfl, by rw [hoffset, byteSize_cons]⟩

/-- An occurrence comes from a line that declares its name. The whole text stays in sight, since the
occurrence tells the number of its line only. -/
theorem declaration_of_mem_scanFrom {all lines : List (List Char)} {uri : String} {number : Nat}
    {pending : Option String} {occurrence : Occurrence} (h : all.drop number = lines)
    (hmem : occurrence ∈ scanFrom uri number pending lines) :
    ∃ line, all[occurrence.line]? = some line ∧
      shape line = .declaration occurrence.name occurrence.kind ∧
      occurrence.column = nameColumn line occurrence.name := by
  fun_induction scanFrom uri number pending lines with
  | case1 => simp at hmem
  | case2 number pending line rest _ block ih =>
    have hafter : all.drop (number + block.length) = (DocBlock.split (line :: rest)).2 := by
      rw [← List.drop_drop, h]
      exact DocBlock.drop_length_split (line :: rest)
    exact ih hafter hmem
  | case3 number pending line rest name kind hshape ih =>
    rcases List.mem_cons.mp hmem with rfl | hmem
    · exact ⟨line, getElem?_of_drop h, hshape, rfl⟩
    · exact ih (drop_succ h) hmem
  | case4 number pending line rest _ ih => exact ih (drop_succ h) hmem
  | case5 number pending line rest _ ih => exact ih (drop_succ h) hmem
  | case6 number pending line rest _ ih => exact ih (drop_succ h) hmem

theorem declaration_of_mem_scan {uri text : String} {occurrence : Occurrence}
    (h : occurrence ∈ scan uri text) :
    ∃ line, (lines text)[occurrence.line]? = some line ∧
      shape line = .declaration occurrence.name occurrence.kind ∧
      occurrence.column = nameColumn line occurrence.name :=
  declaration_of_mem_scanFrom List.drop_zero h

/-- The name of an occurrence can be read where the occurrence stands. -/
theorem covers_of_mem_scan {uri text : String} {occurrence : Occurrence}
    (h : occurrence ∈ scan uri text) : occurrence.range.Covers text occurrence.name.toList := by
  obtain ⟨line, hline, hshape, hcolumn⟩ := declaration_of_mem_scan h
  obtain ⟨before, after, rfl, hoffset⟩ := exists_cut_firstOffset (word_of_shape hshape).2.2
  have hstart : occurrence.column = width before := by
    rw [hcolumn, nameColumn, hoffset, columnAt_byteSize]
  rw [Occurrence.range, hstart, ← width_append]
  exact Range.covers_onLine hline

/-- The names that can be read within the keyword. -/
def insideKeyword : SymbolKind → List String
  | .variable => ["l", "le", "let", "e", "et", "t"]
  | .function => ["f", "fn", "n"]

theorem mem_insideKeyword_iff {kind : SymbolKind} {name : String} (hne : name.toList ≠ []) :
    name ∈ insideKeyword kind ↔ name.toList <:+: kind.keyword := by
  have hparts : name.toList <:+: kind.keyword ↔
      name.toList ∈ kind.keyword.tails.flatMap List.inits := by
    simp [List.infix_iff_prefix_suffix, List.mem_flatMap, List.mem_inits, List.mem_tails, and_comm]
  have hnames : name ∈ insideKeyword kind ↔
      name.toList ∈ (insideKeyword kind).map String.toList :=
    (List.mem_map_of_injective fun _ _ ↦ String.toList_injective).symm
  rw [hparts, hnames]
  cases kind
  · simp [insideKeyword, SymbolKind.keyword, variableKeyword, hne]
  · simp [insideKeyword, SymbolKind.keyword, functionKeyword, hne]

theorem firstOffset_append_self {name : List Char} (hne : name ≠ []) (after : List Char) :
    firstOffset name (name ++ after) = 0 := by
  obtain ⟨c, rest, rfl⟩ := List.exists_cons_of_ne_nil hne
  rw [List.cons_append, firstOffset, if_pos]
  exact List.isPrefixOf_iff_prefix.mpr (List.prefix_append (c :: rest) after)

section Reading

variable {kind : SymbolKind} {line : List Char} (reading : Declaration kind line)

/-- The blank characters before the keyword hide no name. -/
theorem firstOffset_reading : firstOffset reading.name line =
    byteSize reading.introduction.before +
      firstOffset reading.name (kind.keyword ++ (reading.introduction.gap ++
        (reading.name ++ (reading.between ++ kind.mark :: reading.after)))) := by
  exact (congrArg (firstOffset reading.name) reading.introduction.line_eq).trans
    (firstOffset_blank_append reading.identifier.ne_nil reading.identifier.isWordChar
      reading.introduction.before_blank _)

/-- A name that is not part of the keyword is first read where it is declared. -/
theorem firstOffset_of_not_infix (h : ¬reading.name <:+: kind.keyword) :
    firstOffset reading.name line = byteSize reading.introduction.front := by
  have hne := reading.identifier.ne_nil
  have hword := reading.identifier.isWordChar
  rw [firstOffset_reading,
    firstOffset_append_of_not_infix hword reading.introduction.head?_gap h,
    firstOffset_blank_append hne hword reading.introduction.gap_blank,
    firstOffset_append_self hne, Introduction.front, byteSize_append, byteSize_append, Nat.add_zero]

theorem firstOffset_of_infix (h : reading.name <:+: kind.keyword) :
    firstOffset reading.name line =
      byteSize reading.introduction.before + firstOffset reading.name kind.keyword := by
  rw [firstOffset_reading, firstOffset_append_of_infix reading.identifier.isWordChar
    reading.introduction.head?_gap reading.identifier.ne_nil h]

variable {name : String} (hname : reading.name = name.toList)
include hname

theorem nameColumn_of_notMem (h : name ∉ insideKeyword kind) :
    nameColumn line name = width reading.introduction.front := by
  rw [mem_insideKeyword_iff (hname ▸ reading.identifier.ne_nil), ← hname] at h
  rw [nameColumn, ← hname, firstOffset_of_not_infix reading h]
  exact (congrArg (columnAt · _) reading.introduction.line_eq_front).trans (columnAt_byteSize _ _)

theorem nameColumn_of_mem (h : name ∈ insideKeyword kind) :
    ∃ front back, kind.keyword = front ++ (name.toList ++ back) ∧
      nameColumn line name = width (reading.introduction.before ++ front) := by
  rw [mem_insideKeyword_iff (hname ▸ reading.identifier.ne_nil)] at h
  obtain ⟨front, back, hkeyword, hoffset⟩ := exists_cut_firstOffset h
  refine ⟨front, back, hkeyword, ?_⟩
  rw [← hname] at h hoffset
  have hline : line = (reading.introduction.before ++ front) ++ (name.toList ++ (back ++
      (reading.introduction.gap ++
        (reading.name ++ (reading.between ++ kind.mark :: reading.after))))) := by
    simpa only [hkeyword, List.append_assoc] using reading.introduction.line_eq
  rw [nameColumn, ← hname, firstOffset_of_infix reading h, hoffset, ← byteSize_append]
  exact (congrArg (columnAt · _) hline).trans (columnAt_byteSize _ _)

end Reading

/-- The column of the name that the reading finds is that of the name itself, or else that of a part
of the keyword. -/
structure PlacesName {kind : SymbolKind} {line : List Char} (reading : Declaration kind line)
    (name : String) : Prop where
  name_eq : reading.name = name.toList
  atName : nameColumn line name = width reading.introduction.front ↔ name ∉ insideKeyword kind
  inKeyword : name ∈ insideKeyword kind → ∃ front back,
    kind.keyword = front ++ (name.toList ++ back) ∧
      nameColumn line name = width (reading.introduction.before ++ front)

theorem exists_placesName {line : List Char} {name : String} {kind : SymbolKind}
    (h : shape line = .declaration name kind) :
    ∃ reading : Declaration kind line, PlacesName reading name := by
  obtain ⟨reading, hname⟩ := shape_eq_declaration_iff.mp h
  refine ⟨reading, hname, ⟨?_, nameColumn_of_notMem reading hname⟩,
    nameColumn_of_mem reading hname⟩
  -- A part of the keyword starts before the blank characters that follow the keyword.
  intro hcolumn hmem
  obtain ⟨front, back, hkeyword, hplace⟩ := nameColumn_of_mem reading hname hmem
  obtain ⟨c, blanks, hgap⟩ := List.exists_cons_of_ne_nil reading.introduction.gap_ne_nil
  have hpos := units_pos c
  rw [hplace, Introduction.front, hkeyword, hgap] at hcolumn
  simp only [width_append, width_cons] at hcolumn
  omega

end ScriptSense.Symbol
