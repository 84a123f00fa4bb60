import ScriptSense.Proofs.Script.Division
import ScriptSense.Proofs.Symbol.Column
import ScriptSense.Proofs.Symbol.Documentation
import ScriptSense.Proofs.Symbol.Grouping
import ScriptSense.Proofs.Symbol.Scan

/-!
# Symbols of a text that is edited

The names that a text declares are those of the declarations outside its documentation blocks. A
declaration that is inserted outside the blocks adds its own name to them and takes none away.

What a scan records on the first lines of a text is what it records when these lines are all there
is. A documentation block that is open after them takes lines from below, and records nothing on
any of these.
-/

namespace ScriptSense.Symbol

open Text Script

variable {text other name : String} {blocks : List Block} {boundary : Nat} {line : List Char}
  {kind : SymbolKind}

theorem declaredBy_iff (h : Divides (lines text) blocks) (uri name : String) :
    declaredBy uri text name ↔ ∃ number line kind, (lines text)[number]? = some line ∧
      (∀ block ∈ blocks, ¬block.Covers number) ∧ shape line = .declaration name kind := by
  rw [declaredBy, List.any_eq_true]
  simp only [mem_scan_iff h, beq_iff_eq]
  constructor
  · rintro ⟨occurrence, hrecorded, rfl⟩
    obtain ⟨line, hline, hshape, -⟩ := hrecorded.declared
    exact ⟨occurrence.line, line, occurrence.kind, hline, hrecorded.outside, hshape⟩
  · rintro ⟨number, line, kind, hline, houtside, hshape⟩
    obtain ⟨doc, hdoc⟩ := exists_doc h number
    refine ⟨⟨name, kind, uri, number, nameColumn line name, doc⟩, ?_, rfl⟩
    exact ⟨rfl, houtside, ⟨line, hline, hshape, rfl⟩, hdoc⟩

theorem declaredBy_insertIdx (hdivides : Divides (lines text) blocks)
    (houtside : ∀ block ∈ blocks, ¬block.Encloses (lines text) boundary)
    (hle : boundary ≤ (lines text).length) (hshape : shape line = .declaration name kind)
    (hother : lines other = (lines text).insertIdx boundary line) (uri known : String) :
    declaredBy uri other known = (declaredBy uri text known || known == name) := by
  have hopens : opensDoc line = false := by
    rw [← Bool.not_eq_true, ← shape_eq_docOpening_iff, hshape]
    exact Shape.noConfusion
  have hinserted := hdivides.insertIdx houtside hle hopens
  rw [← hother] at hinserted
  rw [Bool.eq_iff_iff, Bool.or_eq_true, beq_iff_eq, declaredBy_iff hinserted,
    declaredBy_iff hdivides]
  constructor
  · rintro ⟨number, declaring, knownKind, hline, hnotCovered, hdeclares⟩
    rw [hother] at hline
    by_cases heq : number = boundary
    · right
      rw [heq, getElem?_insertIdx_boundary hle] at hline
      rw [← Option.some.inj hline, hshape] at hdeclares
      exact (Shape.declaration.inj hdeclares).1.symm
    · left
      obtain ⟨before, rfl⟩ := exists_moveDown heq
      rw [getElem?_insertIdx_moveDown] at hline
      exact ⟨before, declaring, knownKind, hline, forall_not_covers_moveDown_iff.mp hnotCovered,
        hdeclares⟩
  · rintro (⟨before, declaring, knownKind, hline, hnotCovered, hdeclares⟩ | rfl)
    · refine ⟨moveDown boundary before, declaring, knownKind, ?_,
        forall_not_covers_moveDown_iff.mpr hnotCovered, hdeclares⟩
      rw [hother, getElem?_insertIdx_moveDown]
      exact hline
    · refine ⟨boundary, line, kind, ?_, forall_not_covers_boundary houtside, hshape⟩
      rw [hother, getElem?_insertIdx_boundary hle]

theorem line_lt_length_of_mem_scanFrom {uri : String} {lines : List (List Char)}
    {occurrence : Occurrence} (h : occurrence ∈ scanFrom uri 0 none lines) :
    occurrence.line < lines.length := by
  obtain ⟨line, hline, -⟩ := declaration_of_mem_scanFrom List.drop_zero h
  exact (List.getElem?_eq_some_iff.mp hline).1

/-- The occurrences on the first lines come from these lines alone. -/
theorem filter_line_lt_scanFrom (uri : String) (lines : List (List Char)) (count : Nat) :
    (scanFrom uri 0 none lines).filter (·.line < count) =
      scanFrom uri 0 none (lines.take count) := by
  obtain ⟨next, waiting, rest, hnext, hrest, heq⟩ :=
    exists_scanFrom_append uri 0 none (lines.take count) (lines.drop count)
  rw [List.take_append_drop] at heq
  have habove : (scanFrom uri 0 none (lines.take count)).filter (·.line < count) =
      scanFrom uri 0 none (lines.take count) := by
    apply List.filter_eq_self.mpr
    intro occurrence hoccurrence
    apply decide_eq_true
    calc
      occurrence.line < (lines.take count).length := line_lt_length_of_mem_scanFrom hoccurrence
      _ ≤ count := List.length_take_le count lines
  have hbelow : (scanFrom uri next waiting rest).filter (·.line < count) = [] := by
    rcases Nat.lt_or_ge lines.length count with hshort | hlong
    · -- There are no lines below, and so no occurrences.
      rw [List.drop_eq_nil_of_le (Nat.le_of_lt hshort)] at hrest
      rw [List.suffix_nil.mp hrest, scanFrom, List.filter_nil]
    · apply List.filter_eq_nil_iff.mpr
      intro occurrence hoccurrence
      have hle : next ≤ occurrence.line := le_line_of_mem_scanFrom hoccurrence
      rw [List.length_take_of_le hlong] at hnext
      simp only [decide_eq_true_eq]
      omega
  rw [heq, List.filter_append, habove, hbelow, List.append_nil]

/-- Texts with the same first lines have the same occurrences on these lines, in the same order and
with the same columns and documentation, whatever follows them and wherever it closes a block that
they leave open. -/
theorem edits_below_keep_symbols (uri : String) {text other : String} {count : Nat}
    (h : (lines text).take count = (lines other).take count) :
    (scan uri text).filter (·.line < count) = (scan uri other).filter (·.line < count) := by
  calc
    _ = scanFrom uri 0 none ((lines text).take count) := filter_line_lt_scanFrom uri _ count
    _ = scanFrom uri 0 none ((lines other).take count) := by rw [h]
    _ = _ := (filter_line_lt_scanFrom uri _ count).symm

/-- A block that is open after the first three lines is closed in one text and not in the other. -/
theorem edits_below_keep_symbols_of_open :
    (lines "/** d */\nlet a = 1\n/** b\n*/\nlet c = 2").take 3 =
        (lines "/** d */\nlet a = 1\n/** b\nlet c = 2").take 3 ∧
      (scan "a.inmu" "/** d */\nlet a = 1\n/** b\n*/\nlet c = 2").filter (·.line < 3) =
        [⟨"a", .variable, "a.inmu", 1, 4, some "d"⟩] ∧
      (scan "a.inmu" "/** d */\nlet a = 1\n/** b\nlet c = 2").filter (·.line < 3) =
        [⟨"a", .variable, "a.inmu", 1, 4, some "d"⟩] := by
  have hlines : (lines "/** d */\nlet a = 1\n/** b\n*/\nlet c = 2").take 3 =
      (lines "/** d */\nlet a = 1\n/** b\nlet c = 2").take 3 := by decide +kernel
  have hkept := edits_below_keep_symbols "a.inmu" hlines
  have hscan : (scan "a.inmu" "/** d */\nlet a = 1\n/** b\nlet c = 2").filter (·.line < 3) =
      [⟨"a", .variable, "a.inmu", 1, 4, some "d"⟩] := by decide +kernel
  exact ⟨hlines, hkept.trans hscan, hscan⟩

end ScriptSense.Symbol
