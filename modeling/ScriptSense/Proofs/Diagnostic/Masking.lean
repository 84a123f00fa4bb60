import ScriptSense.Proofs.Diagnostic.Place
import ScriptSense.Proofs.Text.Mask
import ScriptSense.Proofs.Workspace.Reports

/-!
# Undeclared names on masked lines

The undeclared names of a line may be read after its literals are written over, or before, leaving
out what starts in a literal. Both ways find the same names at the same places, so the warnings are
the ones that the masked lines call for.
-/

namespace ScriptSense

open Text Script

def Problem.isUndeclared : Problem → Bool
  | .undeclared _ => true
  | _ => false

/-- Only the message about an undeclared name begins like this. -/
def Diagnostic.isUndeclared (diagnostic : Diagnostic) : Bool :=
  "identifier '".toList.isPrefixOf diagnostic.message.toList

theorem Finding.isUndeclared_toDiagnostic (source : String) (finding : Finding) :
    (finding.toDiagnostic source).isUndeclared = finding.problem.isUndeclared := by
  change "identifier '".toList.isPrefixOf finding.problem.message.toList = _
  cases finding.problem with
  | undeclared name =>
    rw [Problem.message, String.append_assoc, String.toList_append, Problem.isUndeclared,
      List.isPrefixOf_iff_prefix]
    exact List.prefix_append _ _
  | bareDeclaration | missingClosing | missingOpening | danglingConditional => decide

theorem Problem.exists_of_isUndeclared {problem : Problem} (h : problem.isUndeclared) :
    ∃ name, problem = .undeclared name := by
  cases problem with
  | undeclared name => exact ⟨name, rfl⟩
  | bareDeclaration | missingClosing | missingOpening | danglingConditional => contradiction

/-- A range starts on an earlier line, or on the same line at an earlier column. -/
def Range.StartsBefore (a b : Range) : Prop :=
  a.start.line < b.start.line ∨ a.start.line = b.start.line ∧ a.start.column < b.start.column

/-- The token is a word that can name something on a masked line of the text, and names are checked
on this line. -/
structure IsMaskedToken (text : String) (number : Nat) (line before token after : List Char) :
    Prop where
  line_eq : (lines text)[number]? = some line
  notBlank : isBlankLine line = false
  notComment : isComment line = false
  notDeclaration : startsDeclaration line = false
  masked : mask line = before ++ (token ++ after)
  run : IsRun before token after
  identifier : ∀ c ∈ token.head?, c.isDigit = false

theorem Text.mem_identifiers_mask_iff {line : List Char} {word : Word} :
    word ∈ identifiers (mask line) ↔
      word ∈ identifiers line ∧ inLiteral line word.offset = false := by
  rw [identifiers_mask, List.mem_filter, Bool.not_eq_true']

section Token

variable {text : String} {number : Nat} {line before token after front back : List Char}

theorem IsMaskedToken.mem_identifiers (h : IsMaskedToken text number line before token after) :
    (⟨byteSize before, token⟩ : Word) ∈ identifiers (mask line) :=
  mem_identifiers_iff.mpr ⟨before, after, h.masked, h.run, rfl, h.identifier⟩

/-- Masking moves no token. -/
theorem IsMaskedToken.exists_place (h : IsMaskedToken text number line before token after) :
    ∃ front back, line = front ++ (token ++ back) ∧ byteSize front = byteSize before := by
  obtain ⟨hword, -⟩ := mem_identifiers_mask_iff.mp h.mem_identifiers
  obtain ⟨front, back, hline, -, hoffset, -⟩ := mem_identifiers_iff.mp hword
  exact ⟨front, back, hline, hoffset.symm⟩

theorem IsMaskedToken.isChecked (h : IsMaskedToken text number line before token after)
    (hline : line = front ++ (token ++ back)) (hsize : byteSize front = byteSize before) :
    IsChecked text number front token back := by
  obtain ⟨hword, hliteral⟩ := mem_identifiers_mask_iff.mp h.mem_identifiers
  obtain ⟨left, right, hcut, hrun, hoffset, hidentifier⟩ := mem_identifiers_iff.mp hword
  obtain ⟨rfl, hrest⟩ := eq_of_byteSize_eq (hline.symm.trans hcut) (hsize.trans hoffset)
  have hback : back = right := List.append_cancel_left hrest
  subst hback hline
  refine ⟨h.line_eq, hrun, hidentifier, ?_, h.notBlank, h.notComment, h.notDeclaration⟩
  rwa [hsize]

theorem IsChecked.exists_isMaskedToken (h : IsChecked text number front token back) :
    ∃ before after, IsMaskedToken text number (front ++ (token ++ back)) before token after ∧
      byteSize front = byteSize before := by
  have hword : (⟨byteSize front, token⟩ : Word) ∈ identifiers (front ++ (token ++ back)) :=
    mem_identifiers_iff.mpr ⟨front, back, rfl, h.run, rfl, h.identifier⟩
  obtain ⟨before, after, hmasked, hrun, hoffset, -⟩ :=
    mem_identifiers_iff.mp (mem_identifiers_mask_iff.mpr ⟨hword, h.outside⟩)
  exact ⟨before, after, ⟨h.line, h.notBlank, h.notComment, h.notDeclaration, hmasked, hrun,
    h.identifier⟩, hoffset⟩

end Token

namespace Diagnose

section Order

variable {declared : String → Bool} {number : Nat}

/-- The other rules tell of other problems. -/
theorem filter_lineFindings (line : List Char) (rest : List (List Char)) :
    (lineFindings declared number line rest).filter (·.problem.isUndeclared) =
      if isExempt line then [] else undeclaredIdentifiers declared number line := by
  have hbare : (bareDeclarations number line).filter (·.problem.isUndeclared) = [] := by
    unfold bareDeclarations
    split <;> rfl
  have hunbalanced : (unbalancedParentheses number line).filter (·.problem.isUndeclared) = [] := by
    unfold unbalancedParentheses
    split
    · rfl
    · split <;> rfl
  have hdangling :
      (danglingConditionals number line rest).filter (·.problem.isUndeclared) = [] := by
    unfold danglingConditionals
    split <;> rfl
  have hundeclared : (undeclaredIdentifiers declared number line).filter (·.problem.isUndeclared) =
      undeclaredIdentifiers declared number line := by
    rw [List.filter_eq_self]
    intro finding hfinding
    obtain ⟨-, before, token, after, -, -, -, -, -, -, rfl⟩ :=
      mem_undeclaredIdentifiers_iff.mp hfinding
    rfl
  unfold lineFindings
  split
  · rfl
  · rw [List.filter_append, List.filter_append, List.filter_append, hbare, hunbalanced, hdangling,
      hundeclared]
    rfl

theorem pairwise_undeclaredIdentifiers (line : List Char) :
    (undeclaredIdentifiers declared number line).Pairwise
      fun a b ↦ a.range.StartsBefore b.range := by
  unfold undeclaredIdentifiers
  split
  · exact .nil
  · rw [List.pairwise_map]
    apply List.Pairwise.filter
    apply List.Pairwise.filter
    apply (pairwise_wordsFrom 0 line).imp_of_mem
    intro a b ha hb hlt
    obtain ⟨before, after, hline, hrun, hoffset⟩ := mem_words_iff.mp ha
    have hne : a.chars ++ after ≠ [] := List.append_ne_nil_of_left_ne_nil hrun.ne_nil _
    have hbefore : byteSize before < b.offset := by omega
    refine .inr ⟨rfl, ?_⟩
    rw [hoffset, hline]
    exact columnAt_byteSize_lt hne hbefore

theorem startLine_of_mem_undeclaredIdentifiers {line : List Char} {finding : Finding}
    (h : finding ∈ undeclaredIdentifiers declared number line) :
    finding.range.start.line = number := by
  obtain ⟨-, before, token, after, -, -, -, -, -, -, rfl⟩ := mem_undeclaredIdentifiers_iff.mp h
  rfl

theorem pairwise_filter_findingsFrom (lines : List (List Char)) :
    ((findingsFrom declared number lines).filter (·.problem.isUndeclared)).Pairwise
      fun a b ↦ a.range.StartsBefore b.range := by
  induction lines generalizing number with
  | nil => exact .nil
  | cons line rest ih =>
    rw [findingsFrom, List.filter_append, filter_lineFindings, List.pairwise_append]
    refine ⟨?_, ih, ?_⟩
    · split
      · exact .nil
      · exact pairwise_undeclaredIdentifiers line
    · intro a ha b hb
      have hfirst : a.range.start.line = number := by
        split at ha
        · exact absurd ha List.not_mem_nil
        · exact startLine_of_mem_undeclaredIdentifiers ha
      obtain ⟨hmem, hproblem⟩ := List.mem_filter.mp hb
      obtain ⟨index, other, -, hother⟩ := mem_findingsFrom_iff.mp hmem
      obtain ⟨name, hname⟩ := Problem.exists_of_isUndeclared hproblem
      have hsecond := startLine_of_mem_undeclaredIdentifiers
        ((mem_lineFindings_undeclared_iff hname).mp hother).2
      exact .inl (by omega)

end Order

/-- A line with a literal that holds a quote of the other kind and a character of two bytes, and
with a quote that is never closed. -/
def quotedLine : List Char := "b 'é \"c' a \"d".toList

def quotedText : String := "let a = 1\n" ++ String.ofList quotedLine

theorem isMaskedToken_quotedLine :
    IsMaskedToken quotedText 1 quotedLine "b '     ' a \"".toList ['d'] [] where
  line_eq := by decide +kernel
  notBlank := by decide +kernel
  notComment := by decide +kernel
  notDeclaration := by decide +kernel
  masked := by decide +kernel
  run := by decide +kernel
  identifier := by simp

end Diagnose

end ScriptSense
