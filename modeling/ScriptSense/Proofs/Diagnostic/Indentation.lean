import ScriptSense.Diagnostic
import ScriptSense.Proofs.Script.Recognition
import ScriptSense.Proofs.Text.Marks

/-!
# Findings follow the indentation

The rules find in a line what they find in its trimmed text. What they point at in the line stands
further to the right by the line's indentation, unless they point at the whole line.
-/

namespace ScriptSense

/-- A problem that is shown at the whole of its line. -/
def Problem.fillsLine : Problem → Bool
  | .bareDeclaration | .danglingConditional => true
  | .missingClosing | .missingOpening | .undeclared _ => false

namespace Diagnose

open Text Script

/-- The finding as it is once its line is indented. -/
def indented (lines : List (List Char)) (finding : Finding) : Finding :=
  let number := finding.range.start.line
  if finding.problem.fillsLine then
    { finding with range := Range.wholeLine number (lines.getD number []) }
  else { finding with range := finding.range.moveRight (indentAt lines number) }

section Lines

variable {all rest : List (List Char)} {number : Nat} {line : List Char}

theorem indented_wholeLine (h : all.drop number = line :: rest) {problem : Problem}
    (hproblem : problem.fillsLine) (text : List Char) :
    indented all ⟨Range.wholeLine number text, problem⟩ =
      ⟨Range.wholeLine number line, problem⟩ := by
  simp only [indented, hproblem, if_true, Range.wholeLine, Range.onLine, getD_of_drop h]

/-- Bytes of the trimmed text of a line, and the same bytes of the line. -/
theorem indented_ofSlice (h : all.drop number = line :: rest) {problem : Problem}
    (hproblem : problem.fillsLine = false) {offset size : Nat}
    (hle : offset + size ≤ byteSize (trim line)) :
    indented all ⟨Range.ofSlice number (trim line) offset size, problem⟩ =
      ⟨Range.ofSlice number line (byteSize (margin line) + offset) size, problem⟩ := by
  have hmargins := ofSlice_margins hle number (margin line) (takeEndWhile isBlank (trimStart line))
  rw [margin_append_trim] at hmargins
  have hindent : indentAt all number = width (margin line) := indentAt_of_drop h
  simp only [indented, hproblem, Bool.false_eq_true, if_false, hmargins]
  rw [← hindent]
  rfl

theorem bareDeclarations_eq_map_indented (h : all.drop number = line :: rest) :
    bareDeclarations number line = (bareDeclarations number (trim line)).map (indented all) := by
  rw [bareDeclarations, bareDeclarations, ignoresMargins_isBareDeclaration.trim]
  split
  · rw [List.map_singleton, indented_wholeLine h rfl]
  · rfl

theorem isClosedBy_map_trim (lines : List (List Char)) :
    isClosedBy (lines.map trim) = isClosedBy lines := by
  induction lines with
  | nil => rfl
  | cons line rest ih =>
    rw [List.map_cons, isClosedBy, ignoresMargins_endsConditional.trim,
      ignoresMargins_startsBlock.trim, ih, isClosedBy]

theorem danglingConditionals_eq_map_indented (h : all.drop number = line :: rest) :
    danglingConditionals number line rest =
      (danglingConditionals number (trim line) (rest.map trim)).map (indented all) := by
  rw [danglingConditionals, danglingConditionals, ignoresMargins_isOpenConditional.trim,
    isClosedBy_map_trim]
  split
  · rw [List.map_singleton, indented_wholeLine h rfl]
  · rfl

theorem unbalancedParentheses_eq_map_indented (h : all.drop number = line :: rest) :
    unbalancedParentheses number line =
      (unbalancedParentheses number (trim line)).map (indented all) := by
  have hopen : isBlank '(' = false := by decide
  have hclose : isBlank ')' = false := by decide
  rw [unbalancedParentheses, unbalancedParentheses, ← count_trim hopen line,
    ← count_trim hclose line]
  split
  · rename_i hmissing
    have hmem : '(' ∈ trim line := List.count_pos_iff.mp (Nat.zero_lt_of_lt hmissing)
    rw [List.map_singleton, indented_ofSlice h rfl (byteSize_dropEndWhile_ne_lt hmem),
      dropEndWhile_ne_eq_margin_append hopen hmem,
      List.dropLast_append_of_ne_nil (dropEndWhile_ne_ne_nil hmem), byteSize_append]
  · split
    · rename_i hmissing
      have hmem : ')' ∈ trim line := List.count_pos_iff.mp (Nat.zero_lt_of_lt hmissing)
      rw [List.map_singleton, indented_ofSlice h rfl (byteSize_takeWhile_ne_lt hmem),
        takeWhile_ne_eq_margin_append hclose hmem, byteSize_append]
    · rfl

theorem undeclaredIdentifiers_eq_map_indented (h : all.drop number = line :: rest)
    (declared : String → Bool) :
    undeclaredIdentifiers declared number line =
      (undeclaredIdentifiers declared number (trim line)).map (indented all) := by
  rw [undeclaredIdentifiers, undeclaredIdentifiers, startsDeclaration, startsDeclaration,
    (ignoresMargins_startsWithWord variableKeyword).trim]
  split
  · rfl
  · have hsame : (fun word : Word ↦ !inLiteral line word.offset && !isReserved word.text &&
          !declared word.text) ∘ Word.moveRight (byteSize (margin line)) =
        fun word ↦ !inLiteral (trim line) word.offset && !isReserved word.text &&
          !declared word.text := by
      funext word
      rw [Function.comp_apply, Word.moveRight, inLiteral_margin]
      rfl
    rw [identifiers_eq_map_moveRight, List.filter_map, hsame, List.map_map, List.map_map]
    apply List.map_congr_left
    intro word hword
    have hle := offset_add_length_le_of_mem_identifiers (List.mem_of_mem_filter hword)
    rw [Function.comp_apply, Function.comp_apply, indented_ofSlice h rfl hle]
    rfl

theorem lineFindings_eq_map_indented (h : all.drop number = line :: rest)
    (declared : String → Bool) :
    lineFindings declared number line rest =
      (lineFindings declared number (trim line) (rest.map trim)).map (indented all) := by
  rw [lineFindings, lineFindings, ignoresMargins_isExempt.trim]
  split
  · rfl
  · rw [List.map_append, List.map_append, List.map_append, ← bareDeclarations_eq_map_indented h,
      ← unbalancedParentheses_eq_map_indented h, ← danglingConditionals_eq_map_indented h,
      ← undeclaredIdentifiers_eq_map_indented h]

end Lines

theorem findingsFrom_eq_map_indented {all lines : List (List Char)} {number : Nat}
    (h : all.drop number = lines) (declared : String → Bool) :
    findingsFrom declared number lines =
      (findingsFrom declared number (lines.map trim)).map (indented all) := by
  induction lines generalizing number with
  | nil => rfl
  | cons line rest ih =>
    rw [findingsFrom, lineFindings_eq_map_indented h, ih (drop_succ h), ← List.map_append,
      List.map_cons, findingsFrom]

end Diagnose

end ScriptSense
