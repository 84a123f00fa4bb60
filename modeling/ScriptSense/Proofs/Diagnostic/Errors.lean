import ScriptSense.Proofs.Diagnostic.Undeclared

/-!
# Errors

A line has an error if it is a declaration without a value or its parentheses do not balance, and
it is neither blank nor a comment. Whether a line has an error does not depend on the lines around
it or on what is declared.
-/

namespace ScriptSense.Diagnose

open Text Script

structure IsErroneous (line : List Char) : Prop where
  notBlank : isBlankLine line = false
  notComment : isComment line = false
  fault : isBareDeclaration line ∨ line.count '(' ≠ line.count ')'

variable {declared : String → Bool} {number : Nat} {line : List Char} {rest : List (List Char)}
  {finding : Finding}

theorem severity_of_mem_danglingConditionals
    (h : finding ∈ danglingConditionals number line rest) :
    finding.problem.severity = .warning := by
  unfold danglingConditionals at h
  split at h
  · rw [List.mem_singleton.mp h]
    rfl
  · cases h

theorem severity_of_mem_undeclaredIdentifiers
    (h : finding ∈ undeclaredIdentifiers declared number line) :
    finding.problem.severity = .warning := by
  unfold undeclaredIdentifiers at h
  split at h
  · cases h
  · obtain ⟨word, -, rfl⟩ := List.mem_map.mp h
    rfl

theorem exists_bareDeclaration_iff :
    (∃ finding ∈ bareDeclarations number line, finding.problem.severity = .error) ↔
      isBareDeclaration line := by
  unfold bareDeclarations
  split
  · rename_i hbare
    simp [hbare, Problem.severity]
  · rename_i hbare
    simpa using hbare

theorem exists_unbalanced_iff :
    (∃ finding ∈ unbalancedParentheses number line, finding.problem.severity = .error) ↔
      line.count '(' ≠ line.count ')' := by
  unfold unbalancedParentheses
  split
  · rename_i hmore
    simp [Problem.severity, Nat.ne_of_gt hmore]
  · rename_i hmore
    split
    · rename_i hless
      simp [Problem.severity, Nat.ne_of_lt hless]
    · rename_i hless
      simpa using Nat.le_antisymm (Nat.not_lt.mp hmore) (Nat.not_lt.mp hless)

/-- An error is found on the lines that have one. -/
theorem exists_error_lineFindings_iff :
    (∃ finding ∈ lineFindings declared number line rest, finding.problem.severity = .error) ↔
      IsErroneous line := by
  have hdangling : ¬∃ finding ∈ danglingConditionals number line rest,
      finding.problem.severity = .error := by
    rintro ⟨finding, hmem, herror⟩
    rw [severity_of_mem_danglingConditionals hmem] at herror
    cases herror
  have hundeclared : ¬∃ finding ∈ undeclaredIdentifiers declared number line,
      finding.problem.severity = .error := by
    rintro ⟨finding, hmem, herror⟩
    rw [severity_of_mem_undeclaredIdentifiers hmem] at herror
    cases herror
  unfold lineFindings
  split
  · rename_i hexempt
    rw [isExempt_eq, Bool.or_eq_true] at hexempt
    refine ⟨by simp, fun h ↦ ?_⟩
    rcases hexempt with hblank | hcomment
    · simp [h.notBlank] at hblank
    · simp [h.notComment] at hcomment
  · rename_i hexempt
    rw [isExempt_eq, Bool.not_eq_true, Bool.or_eq_false_iff] at hexempt
    simp only [List.mem_append, or_and_right, exists_or, exists_bareDeclaration_iff,
      exists_unbalanced_iff, hdangling, hundeclared, or_false]
    exact ⟨fun h ↦ ⟨hexempt.1, hexempt.2, h⟩, IsErroneous.fault⟩

theorem exists_error_findingsFrom_iff {lines : List (List Char)} :
    (∃ finding ∈ findingsFrom declared number lines, finding.problem.severity = .error) ↔
      ∃ line ∈ lines, IsErroneous line := by
  induction lines generalizing number with
  | nil => simp [findingsFrom]
  | cons line rest ih =>
    rw [List.exists_mem_cons_iff, ← @ih (number + 1),
      ← @exists_error_lineFindings_iff declared number line rest]
    simp only [findingsFrom, List.mem_append, or_and_right, exists_or]

/-- The findings before the first error; all of them are warnings. -/
def leadingWarnings (findings : List Finding) : List Finding :=
  findings.takeWhile (·.problem.severity == .warning)

/-- An error is among the findings that are reported if the warnings before it leave room for it. -/
theorem exists_error_take_iff {findings : List Finding} {limit : Nat} :
    (∃ finding ∈ findings.take limit, finding.problem.severity = .error) ↔
      (∃ finding ∈ findings, finding.problem.severity = .error) ∧
        (leadingWarnings findings).length < limit := by
  induction findings generalizing limit with
  | nil => simp
  | cons finding rest ih =>
    cases limit with
    | zero => simp
    | succ limit =>
      rw [List.take_succ_cons, List.exists_mem_cons_iff, List.exists_mem_cons_iff, ih]
      cases hseverity : finding.problem.severity <;> simp [leadingWarnings, hseverity]

end ScriptSense.Diagnose
