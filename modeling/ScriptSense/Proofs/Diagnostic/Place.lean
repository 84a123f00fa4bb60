import ScriptSense.Proofs.Diagnostic.Undeclared
import ScriptSense.Proofs.Text.Cuts

/-!
# Where a finding points

A finding points at what its problem is about: all of the line for a statement that is not complete,
one parenthesis where another is missing, and the name that is not declared.
-/

namespace ScriptSense

open Text

/-- What the problem is about on the line where it is found. -/
def Problem.subject (line : List Char) : Problem → List Char
  | .bareDeclaration | .danglingConditional => line
  | .missingClosing => ['(']
  | .missingOpening => [')']
  | .undeclared name => name.toList

/-- What is told about a problem determines the problem. -/
theorem Problem.message_injective : Function.Injective message := by
  intro problem other h
  cases problem <;> cases other
  case undeclared.undeclared name other =>
    have hchars := congrArg String.toList h
    simp only [message, String.toList_append, List.append_cancel_right_eq,
      List.append_cancel_left_eq] at hchars
    rw [String.ext hchars]
  all_goals
    first
    | rfl
    | exact absurd h (by decide)
    | exact absurd (congrArg (·.toList.head?) h) (by simp [message])

theorem Finding.toDiagnostic_injective (source : String) :
    Function.Injective (Finding.toDiagnostic source) := by
  intro finding other h
  have hrange : finding.range = other.range := congrArg Diagnostic.range h
  have hmessage : finding.problem.message = other.problem.message :=
    congrArg Diagnostic.message h
  have hproblem := Problem.message_injective hmessage
  cases finding
  cases other
  simp_all

/-- The finding is on the line of the text and points at the subject of its problem. -/
structure Finding.Marks (text : String) (line : List Char) (finding : Finding) : Prop where
  line_eq : (lines text)[finding.range.start.line]? = some line
  covers : finding.range.Covers text (finding.problem.subject line)

namespace Text

/-- The first mark of a line comes right after the text without marks. -/
theorem takeWhile_ne_append_mark {mark : Char} {line : List Char} (h : mark ∈ line) :
    ∃ after, line = line.takeWhile (· != mark) ++ ([mark] ++ after) := by
  obtain ⟨c, after, hdrop⟩ :=
    List.exists_cons_of_ne_nil (List.length_pos_iff.mp (length_dropWhile_ne_pos h))
  have hstop := head?_dropWhile (· != mark) line c (by rw [hdrop]; rfl)
  have hc : c = mark := by simpa using hstop
  rw [hc] at hdrop
  refine ⟨after, ?_⟩
  rw [List.singleton_append, ← hdrop, List.takeWhile_append_dropWhile]

/-- The last mark of a line comes right before the text without marks. -/
theorem dropLast_dropEndWhile_ne_append_mark {mark : Char} {line : List Char} (h : mark ∈ line) :
    ∃ after, line = (dropEndWhile (· != mark) line).dropLast ++ ([mark] ++ after) := by
  have hne := dropEndWhile_ne_ne_nil h
  have hstop := getLast?_dropEndWhile (· != mark) line _ (List.getLast?_eq_some_getLast hne)
  have hlast : (dropEndWhile (· != mark) line).getLast hne = mark := by simpa using hstop
  have hthrough := List.dropLast_append_getLast hne
  rw [hlast] at hthrough
  refine ⟨takeEndWhile (· != mark) line, ?_⟩
  rw [← List.append_assoc, hthrough, dropEndWhile_append_takeEndWhile]

end Text

namespace Diagnose

open Script

section Rules

variable {text : String} {number : Nat} {line : List Char} {rest : List (List Char)}
  {finding : Finding}

theorem marks_of_mem_bareDeclarations (hline : (lines text)[number]? = some line)
    (h : finding ∈ bareDeclarations number line) : finding.Marks text line := by
  unfold bareDeclarations at h
  split at h
  · rw [List.mem_singleton.mp h]
    exact ⟨hline, Range.covers_wholeLine hline⟩
  · exact absurd h List.not_mem_nil

theorem marks_of_mem_danglingConditionals (hline : (lines text)[number]? = some line)
    (h : finding ∈ danglingConditionals number line rest) : finding.Marks text line := by
  unfold danglingConditionals at h
  split at h
  · rw [List.mem_singleton.mp h]
    exact ⟨hline, Range.covers_wholeLine hline⟩
  · exact absurd h List.not_mem_nil

theorem marks_of_mark {before after : List Char} {mark : Char} {problem : Problem}
    (hline : (lines text)[number]? = some line) (hcut : line = before ++ ([mark] ++ after))
    (hmark : mark.utf8Size = 1) (hproblem : problem.subject line = [mark]) :
    Finding.Marks text line ⟨Range.ofSlice number line (byteSize before) 1, problem⟩ := by
  have hsize : byteSize [mark] = 1 := by rw [byteSize_cons, hmark, byteSize_nil]
  rw [← hsize]
  refine ⟨hline, ?_⟩
  rw [hproblem]
  subst hcut
  exact Range.covers_ofSlice hline

theorem marks_of_mem_unbalancedParentheses (hline : (lines text)[number]? = some line)
    (h : finding ∈ unbalancedParentheses number line) : finding.Marks text line := by
  unfold unbalancedParentheses at h
  split at h
  · rename_i hmissing
    have hmem : '(' ∈ line := List.count_pos_iff.mp (Nat.zero_lt_of_lt hmissing)
    obtain ⟨after, hcut⟩ := dropLast_dropEndWhile_ne_append_mark hmem
    rw [List.mem_singleton.mp h]
    exact marks_of_mark hline hcut (by decide) rfl
  · split at h
    · rename_i hmissing
      have hmem : ')' ∈ line := List.count_pos_iff.mp (Nat.zero_lt_of_lt hmissing)
      obtain ⟨after, hcut⟩ := takeWhile_ne_append_mark hmem
      rw [List.mem_singleton.mp h]
      exact marks_of_mark hline hcut (by decide) rfl
    · exact absurd h List.not_mem_nil

theorem marks_of_mem_undeclaredIdentifiers {declared : String → Bool}
    (hline : (lines text)[number]? = some line)
    (h : finding ∈ undeclaredIdentifiers declared number line) : finding.Marks text line := by
  obtain ⟨-, before, token, after, rfl, -, -, -, -, -, rfl⟩ := mem_undeclaredIdentifiers_iff.mp h
  refine ⟨hline, ?_⟩
  rw [Finding.undeclared, Problem.subject, String.toList_ofList]
  exact Range.covers_onLine hline

theorem marks_of_mem_lineFindings {declared : String → Bool}
    (hline : (lines text)[number]? = some line)
    (h : finding ∈ lineFindings declared number line rest) : finding.Marks text line := by
  unfold lineFindings at h
  split at h
  · exact absurd h List.not_mem_nil
  · simp only [List.mem_append] at h
    rcases h with ((h | h) | h) | h
    · exact marks_of_mem_bareDeclarations hline h
    · exact marks_of_mem_unbalancedParentheses hline h
    · exact marks_of_mem_danglingConditionals hline h
    · exact marks_of_mem_undeclaredIdentifiers hline h

end Rules

theorem marks_of_mem_findingsFrom {declared : String → Bool} {text : String} {finding : Finding}
    (h : finding ∈ findingsFrom declared 0 (lines text)) : ∃ line, finding.Marks text line := by
  obtain ⟨number, line, hline, h⟩ := mem_findingsFrom_iff.mp h
  rw [Nat.zero_add] at h
  exact ⟨line, marks_of_mem_lineFindings hline h⟩

end Diagnose

end ScriptSense
