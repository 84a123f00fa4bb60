import ScriptSense.Diagnostic
import ScriptSense.Proofs.Text.Runs

/-!
# Names that are not declared

A name is checked where it stands as a word that can name something, outside the literals, on a line
that is neither blank nor a comment nor a declaration. The undeclared names that a report tells of
are the checked ones that are neither reserved nor declared.

A line has the same findings wherever it stands, but for the line number in their ranges. Of the
lines below it only one thing matters to them: whether a conditional would be ended there.
-/

namespace ScriptSense

open Text Script

/-- The token stands on a line of the text where names are checked, and is one that can name
something: it does not start with a digit, and it does not start in a literal. -/
structure IsChecked (text : String) (number : Nat) (before token after : List Char) : Prop where
  line : (lines text)[number]? = some (before ++ (token ++ after))
  run : IsRun before token after
  identifier : ∀ c ∈ token.head?, c.isDigit = false
  outside : inLiteral (before ++ (token ++ after)) (byteSize before) = false
  notBlank : isBlankLine (before ++ (token ++ after)) = false
  notComment : isComment (before ++ (token ++ after)) = false
  notDeclaration : startsDeclaration (before ++ (token ++ after)) = false

theorem isChecked_iff {text : String} {number : Nat} {before token after : List Char} :
    IsChecked text number before token after ↔
      (lines text)[number]? = some (before ++ (token ++ after)) ∧ IsRun before token after ∧
      token.head?.all (!Char.isDigit ·) ∧
      inLiteral (before ++ (token ++ after)) (byteSize before) = false ∧
      isBlankLine (before ++ (token ++ after)) = false ∧
      isComment (before ++ (token ++ after)) = false ∧
      startsDeclaration (before ++ (token ++ after)) = false := by
  simp only [Option.all_eq_true, Bool.not_eq_true']
  constructor
  · intro h
    exact ⟨h.line, h.run, h.identifier, h.outside, h.notBlank, h.notComment, h.notDeclaration⟩
  · rintro ⟨hline, hrun, hidentifier, houtside, hblank, hcomment, hdeclaration⟩
    exact ⟨hline, hrun, hidentifier, houtside, hblank, hcomment, hdeclaration⟩

instance {text : String} {number : Nat} {before token after : List Char} :
    Decidable (IsChecked text number before token after) :=
  decidable_of_iff' _ isChecked_iff

/-- What is found when the token is not declared. -/
def Finding.undeclared (number : Nat) (before token : List Char) : Finding :=
  ⟨Range.onLine number (width before) (width (before ++ token)), .undeclared (String.ofList token)⟩

theorem Script.isExempt_eq (line : List Char) :
    isExempt line = (isBlankLine line || isComment line) := by
  unfold isExempt shape
  cases isBlankLine line with
  | true => rfl
  | false =>
    cases isComment line with
    | true => rfl
    | false =>
      simp only [Bool.false_eq_true, if_false, Bool.or_self, Bool.or_eq_false_iff,
        beq_eq_false_iff_ne]
      split
      · exact ⟨Shape.noConfusion, Shape.noConfusion⟩
      · split
        · exact ⟨Shape.noConfusion, Shape.noConfusion⟩
        · split <;> exact ⟨Shape.noConfusion, Shape.noConfusion⟩

/-- The same columns on a line with another number. -/
def Range.atLine (number : Nat) (range : Range) : Range :=
  onLine number range.start.column range.stop.column

def Finding.atLine (number : Nat) (finding : Finding) : Finding :=
  { finding with range := finding.range.atLine number }

namespace Diagnose

variable {declared : String → Bool} {number : Nat} {line : List Char} {rest : List (List Char)}
  {finding : Finding} {name text : String}

theorem mem_findingsFrom_iff {lines : List (List Char)} :
    finding ∈ findingsFrom declared number lines ↔ ∃ index line, lines[index]? = some line ∧
      finding ∈ lineFindings declared (number + index) line (lines.drop (index + 1)) := by
  induction lines generalizing number with
  | nil => simp [findingsFrom]
  | cons first others ih =>
    rw [findingsFrom, List.mem_append, ih]
    constructor
    · rintro (h | ⟨index, line, hline, h⟩)
      · exact ⟨0, first, rfl, h⟩
      · exact ⟨index + 1, line, hline, by rwa [← Nat.add_assoc, Nat.add_right_comm]⟩
    · rintro ⟨index, line, hline, h⟩
      cases index with
      | zero =>
        obtain rfl := Option.some.inj hline
        exact .inl h
      | succ index => exact .inr ⟨index, line, hline, by rwa [Nat.add_right_comm, Nat.add_assoc]⟩

/-- Of the rules, only one finds undeclared names. -/
theorem mem_lineFindings_undeclared_iff (hproblem : finding.problem = .undeclared name) :
    finding ∈ lineFindings declared number line rest ↔
      isExempt line = false ∧ finding ∈ undeclaredIdentifiers declared number line := by
  have hbare : finding ∉ bareDeclarations number line := by
    unfold bareDeclarations
    split <;> grind
  have hunbalanced : finding ∉ unbalancedParentheses number line := by
    unfold unbalancedParentheses
    split
    · grind
    · split <;> grind
  have hdangling : finding ∉ danglingConditionals number line rest := by
    unfold danglingConditionals
    split <;> grind
  unfold lineFindings
  split
  · simp_all
  · simp_all

theorem mem_undeclaredIdentifiers_iff : finding ∈ undeclaredIdentifiers declared number line ↔
    startsDeclaration line = false ∧ ∃ before token after, line = before ++ (token ++ after) ∧
      IsRun before token after ∧ (∀ c ∈ token.head?, c.isDigit = false) ∧
      inLiteral line (byteSize before) = false ∧ isReserved (String.ofList token) = false ∧
      declared (String.ofList token) = false ∧ finding = .undeclared number before token := by
  unfold undeclaredIdentifiers
  split
  · simp_all
  · rename_i hdeclaration
    have hnot : startsDeclaration line = false := by simpa using hdeclaration
    rw [List.mem_map]
    constructor
    · rintro ⟨word, hword, rfl⟩
      obtain ⟨hmem, hkept⟩ := List.mem_filter.mp hword
      obtain ⟨before, after, hline, hrun, hoffset, hidentifier⟩ := mem_identifiers_iff.mp hmem
      simp only [Bool.and_eq_true, Bool.not_eq_true', hoffset] at hkept
      refine ⟨hnot, before, word.chars, after, hline, hrun, hidentifier, hkept.1.1, hkept.1.2,
        hkept.2, ?_⟩
      rw [Finding.undeclared, hline, hoffset, hrun.ofSlice_eq_onLine number, Word.text]
    · rintro ⟨-, before, token, after, hline, hrun, hidentifier, hliteral, hreserved, hdeclared,
        rfl⟩
      refine ⟨⟨byteSize before, token⟩, List.mem_filter.mpr ⟨?_, ?_⟩, ?_⟩
      · exact mem_identifiers_iff.mpr ⟨before, after, hline, hrun, rfl, hidentifier⟩
      · simp [hliteral, Word.text, hreserved, hdeclared]
      · rw [Finding.undeclared, hline, hrun.ofSlice_eq_onLine number, Word.text]

/-- The undeclared names of a text are the checked ones that are not reserved and not declared. -/
theorem mem_findingsFrom_undeclared_iff (hproblem : finding.problem = .undeclared name) :
    finding ∈ findingsFrom declared 0 (lines text) ↔
      ∃ number before token after, IsChecked text number before token after ∧
        isReserved (String.ofList token) = false ∧ declared (String.ofList token) = false ∧
        finding = .undeclared number before token := by
  rw [mem_findingsFrom_iff]
  simp only [mem_lineFindings_undeclared_iff hproblem, mem_undeclaredIdentifiers_iff,
    isExempt_eq, Bool.or_eq_false_iff, Nat.zero_add]
  constructor
  · rintro ⟨number, line, hline, ⟨hblank, hcomment⟩, hdeclaration, before, token, after, rfl, hrun,
      hidentifier, hliteral, hreserved, hdeclared, rfl⟩
    exact ⟨number, before, token, after,
      ⟨hline, hrun, hidentifier, hliteral, hblank, hcomment, hdeclaration⟩, hreserved, hdeclared,
      rfl⟩
  · rintro ⟨number, before, token, after, hchecked, hreserved, hdeclared, rfl⟩
    exact ⟨number, _, hchecked.line, ⟨hchecked.notBlank, hchecked.notComment⟩,
      hchecked.notDeclaration, before, token, after, rfl, hchecked.run, hchecked.identifier,
      hchecked.outside, hreserved, hdeclared, rfl⟩

theorem undeclared_mem_findingsFrom_iff {before token after : List Char}
    (h : IsChecked text number before token after) :
    Finding.undeclared number before token ∈ findingsFrom declared 0 (lines text) ↔
      isReserved (String.ofList token) = false ∧ declared (String.ofList token) = false := by
  rw [mem_findingsFrom_undeclared_iff rfl]
  constructor
  · rintro ⟨otherNumber, otherBefore, otherToken, otherAfter, -, hreserved, hdeclared, heq⟩
    have hname := Problem.undeclared.inj (congrArg Finding.problem heq)
    rw [hname]
    exact ⟨hreserved, hdeclared⟩
  · rintro ⟨hreserved, hdeclared⟩
    exact ⟨number, before, token, after, h, hreserved, hdeclared, rfl⟩

theorem bareDeclarations_eq_map_atLine (number : Nat) (line : List Char) :
    bareDeclarations number line = (bareDeclarations 0 line).map (·.atLine number) := by
  unfold bareDeclarations
  split <;> rfl

theorem unbalancedParentheses_eq_map_atLine (number : Nat) (line : List Char) :
    unbalancedParentheses number line = (unbalancedParentheses 0 line).map (·.atLine number) := by
  unfold unbalancedParentheses
  split
  · rfl
  · split <;> rfl

theorem danglingConditionals_eq_map_atLine (number : Nat) (line : List Char)
    (rest : List (List Char)) :
    danglingConditionals number line rest =
      (danglingConditionals 0 line rest).map (·.atLine number) := by
  unfold danglingConditionals
  split <;> rfl

theorem undeclaredIdentifiers_eq_map_atLine (declared : String → Bool) (number : Nat)
    (line : List Char) :
    undeclaredIdentifiers declared number line =
      (undeclaredIdentifiers declared 0 line).map (·.atLine number) := by
  unfold undeclaredIdentifiers
  split
  · rfl
  · rw [List.map_map]
    rfl

theorem lineFindings_eq_map_atLine (declared : String → Bool) (number : Nat) (line : List Char)
    (rest : List (List Char)) :
    lineFindings declared number line rest =
      (lineFindings declared 0 line rest).map (·.atLine number) := by
  unfold lineFindings
  split
  · rfl
  · rw [bareDeclarations_eq_map_atLine, unbalancedParentheses_eq_map_atLine,
      danglingConditionals_eq_map_atLine, undeclaredIdentifiers_eq_map_atLine, List.map_append,
      List.map_append, List.map_append]

theorem line_of_mem_lineFindings (h : finding ∈ lineFindings declared number line rest) :
    finding.range.start.line = number ∧ finding.range.stop.line = number := by
  rw [lineFindings_eq_map_atLine] at h
  obtain ⟨other, -, rfl⟩ := List.mem_map.mp h
  exact ⟨rfl, rfl⟩

theorem le_line_of_mem_findingsFrom {lines : List (List Char)}
    (h : finding ∈ findingsFrom declared number lines) : number ≤ finding.range.start.line := by
  obtain ⟨index, line, -, h⟩ := mem_findingsFrom_iff.mp h
  rw [(line_of_mem_lineFindings h).1]
  exact Nat.le_add_right number index

theorem lineFindings_congr {other : List (List Char)} (h : isClosedBy rest = isClosedBy other) :
    lineFindings declared number line rest = lineFindings declared number line other := by
  rw [lineFindings, danglingConditionals, h, ← danglingConditionals, ← lineFindings]

theorem lineFindings_of_isBlankLine (h : isBlankLine line) :
    lineFindings declared number line rest = [] := by
  rw [lineFindings, if_pos (by rw [isExempt_eq, h, Bool.true_or])]

/-- What a test of diagnostics keeps can be told from the findings. -/
theorem filter_map_toDiagnostic {source : String} {p : Diagnostic → Bool} {q : Finding → Bool}
    (h : ∀ finding, p (finding.toDiagnostic source) = q finding) (findings : List Finding) :
    (findings.map (Finding.toDiagnostic source)).filter p =
      (findings.filter q).map (Finding.toDiagnostic source) := by
  rw [List.filter_map]
  congr 2
  exact funext h

/-- Below the limit all findings are reported. -/
theorem diagnose_eq_map {policy : Policy} {index : Symbol.Index} {uri text : String}
    (hlimit : (findings index uri text).length ≤ policy.limit) :
    policy.diagnose index uri text =
      (findings index uri text).map (Finding.toDiagnostic policy.source) := by
  rw [Policy.diagnose, List.take_of_length_le hlimit]

end Diagnose

end ScriptSense
