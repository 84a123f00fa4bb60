import ScriptSense.Proofs.Diagnostic.Conditionals
import ScriptSense.Proofs.Script.Shapes

/-!
# The space after a keyword

The index takes a line for a declaration whatever blank characters separate the keyword from the
name. The diagnostics take it for one only if the first of these characters is a space.
-/

namespace ScriptSense

open Text Script

namespace Script

/-- The character between a keyword that begins the line and what comes after it. -/
def separator? (keyword line : List Char) : Option Char :=
  (keyword.isPrefixOf? (trimStart line)).bind List.head?

section Introduced

variable {kind : SymbolKind} {line rest : List Char}

theorem Introduction.separator?_eq (intro : Introduction kind line rest) :
    separator? kind.keyword line = intro.gap.head? := by
  rw [separator?, intro.isPrefixOf?_trimStart, Option.bind_some,
    List.head?_append_of_ne_nil _ intro.gap_ne_nil]

section Rest

variable (hne : rest ≠ []) (hrest : ∀ c ∈ rest.head?, isBlank c = false)
include hne hrest

/-- What stands between the keyword and the rest of the line is not trimmed away. -/
theorem Introduction.prefix_trim (intro : Introduction kind line rest) :
    kind.keyword ++ intro.gap <+: trim line := by
  obtain ⟨c, after, rfl⟩ := List.exists_cons_of_ne_nil hne
  have hstarts : StartsWith (kind.keyword ++ (intro.gap ++ [c])) line :=
    ⟨intro.before, after, intro.before_blank, by simpa using intro.line_eq⟩
  have htrim : kind.keyword ++ (intro.gap ++ [c]) <+: trim line := by
    refine (prefix_trim_iff (isBlank_head?_keyword kind _) ?_).mpr hstarts
    rw [← List.append_assoc, List.getLast?_concat]
    exact hrest
  rw [← List.append_assoc] at htrim
  exact (List.prefix_append _ [c]).trans htrim

/-- Of all the blank characters that may follow a keyword, a space is what is looked for. -/
theorem Introduction.startsWithWord_iff (intro : Introduction kind line rest) :
    startsWithWord kind.keyword line ↔ separator? kind.keyword line = some ' ' := by
  obtain ⟨g, blanks, hgap⟩ := List.exists_cons_of_ne_nil intro.gap_ne_nil
  have htrim := intro.prefix_trim hne hrest
  rw [hgap, ← List.singleton_append, ← List.append_assoc] at htrim
  have hone : kind.keyword ++ [g] <+: trim line := (List.prefix_append _ blanks).trans htrim
  rw [startsWithWord, List.isPrefixOf_iff_prefix, intro.separator?_eq, hgap, List.head?_cons,
    Option.some_inj]
  constructor
  · intro h
    have heq := (List.prefix_of_prefix_length_le hone h (by simp)).eq_of_length (by simp)
    exact List.singleton_inj.mp (List.append_cancel_left heq)
  · rintro rfl
    exact hone

end Rest

end Introduced

/-- The line declares a variable, with a value or without one. -/
def IsVariableLine (line : List Char) : Prop :=
  (∃ name, shape line = .declaration name .variable) ∨ isBareDeclaration line

def IsFunctionLine (line : List Char) : Prop :=
  ∃ name, shape line = .declaration name .function

section Line

variable {line : List Char}

theorem IsVariableLine.exists_introduction (h : IsVariableLine line) :
    ∃ rest, Nonempty (Introduction .variable line rest) ∧ rest ≠ [] ∧
      ∀ c ∈ rest.head?, isBlank c = false := by
  rcases h with ⟨name, hshape⟩ | hbare
  · obtain ⟨reading, -⟩ := shape_eq_declaration_iff.mp hshape
    exact ⟨_, ⟨reading.introduction⟩,
      List.append_ne_nil_of_left_ne_nil reading.identifier.ne_nil _, reading.head?_name _⟩
  · obtain ⟨reading⟩ := isBareDeclaration_iff.mp hbare
    exact ⟨_, ⟨reading.introduction⟩,
      List.append_ne_nil_of_left_ne_nil reading.word_ne_nil _, reading.head?_word⟩

theorem IsVariableLine.startsDeclaration_iff (h : IsVariableLine line) :
    startsDeclaration line ↔ separator? variableKeyword line = some ' ' := by
  obtain ⟨rest, ⟨intro⟩, hne, hrest⟩ := h.exists_introduction
  exact intro.startsWithWord_iff hne hrest

theorem IsVariableLine.isExempt (h : IsVariableLine line) : isExempt line = false := by
  obtain ⟨rest, ⟨intro⟩, -⟩ := h.exists_introduction
  obtain ⟨hblank, hcomment, -⟩ := not_blank_comment_docOpening intro.startsWith
  rw [isExempt_eq, hblank, hcomment, Bool.or_self]

theorem IsFunctionLine.startsBlock_iff (h : IsFunctionLine line) :
    startsBlock line ↔ separator? functionKeyword line = some ' ' := by
  obtain ⟨name, hshape⟩ := h
  obtain ⟨reading, -⟩ := shape_eq_declaration_iff.mp hshape
  have hkeyword : functionKeyword <+: trim line :=
    List.isPrefixOf_iff_prefix.mp
      ((startsWith_iff isBlank_functionKeyword).mpr reading.introduction.startsWith)
  have hconditional : startsWithWord conditionalKeyword line = false := by
    rw [startsWithWord, ← Bool.not_eq_true, List.isPrefixOf_iff_prefix]
    intro hother
    exact absurd (List.prefix_or_prefix_of_prefix hkeyword hother) (by decide)
  rw [startsBlock, hconditional, Bool.false_or]
  exact reading.introduction.startsWithWord_iff
    (List.append_ne_nil_of_left_ne_nil reading.identifier.ne_nil _) (reading.head?_name _)

end Line

end Script

namespace Diagnose

/-- The token on the line is a name that is neither reserved nor declared. -/
structure IsUnknown (declared : String → Bool) (line before token after : List Char) : Prop where
  line_eq : line = before ++ (token ++ after)
  run : IsRun before token after
  identifier : ∀ c ∈ token.head?, c.isDigit = false
  outside : inLiteral line (byteSize before) = false
  notReserved : isReserved (String.ofList token) = false
  notDeclared : declared (String.ofList token) = false

/-- It is the space after the keyword by which the diagnostics know a declaration. -/
structure SpaceDecides (index : Symbol.Index) (uri text : String) (number : Nat)
    (line : List Char) : Prop where
  declaration : IsVariableLine line →
    (startsDeclaration line ↔ separator? variableKeyword line = some ' ')
  block : IsFunctionLine line → (startsBlock line ↔ separator? functionKeyword line = some ' ')
  skipped : IsVariableLine line → separator? variableKeyword line = some ' ' →
    ∀ finding ∈ findings index uri text, finding.range.start.line = number →
      ∀ name, finding.problem ≠ .undeclared name
  checked : IsVariableLine line → separator? variableKeyword line ≠ some ' ' →
    ∀ before token after, IsUnknown (index.declares · uri) line before token after →
      Finding.undeclared number before token ∈ findings index uri text
  search : IsFunctionLine line → (isClosedBy ((lines text).drop number) ↔
    separator? functionKeyword line ≠ some ' ' ∧ isClosedBy ((lines text).drop (number + 1)))

section Line

variable {index : Symbol.Index} {uri text : String} {number : Nat} {line : List Char}

theorem undeclared_notMem_of_startsDeclaration (hline : (lines text)[number]? = some line)
    (h : startsDeclaration line) {finding : Finding} (hfinding : finding ∈ findings index uri text)
    (hnumber : finding.range.start.line = number) (name : String) :
    finding.problem ≠ .undeclared name := by
  obtain ⟨other, found, hfound, hmem⟩ := mem_findingsFrom_iff.mp hfinding
  obtain rfl : other = number := by
    rw [← hnumber, (line_of_mem_lineFindings hmem).1, Nat.zero_add]
  obtain rfl : line = found := Option.some.inj (hline.symm.trans hfound)
  intro hproblem
  have hnot := (mem_undeclaredIdentifiers_iff.mp
    ((mem_lineFindings_undeclared_iff hproblem).mp hmem).2).1
  rw [h] at hnot
  contradiction

theorem undeclared_mem_of_isUnknown (hline : (lines text)[number]? = some line)
    (hexempt : isExempt line = false) (h : startsDeclaration line = false)
    {before token after : List Char}
    (hunknown : IsUnknown (index.declares · uri) line before token after) :
    Finding.undeclared number before token ∈ findings index uri text := by
  have hmem : Finding.undeclared number before token ∈
      undeclaredIdentifiers (index.declares · uri) number line :=
    mem_undeclaredIdentifiers_iff.mpr ⟨h, before, token, after, hunknown.line_eq, hunknown.run,
      hunknown.identifier, hunknown.outside, hunknown.notReserved, hunknown.notDeclared, rfl⟩
  refine mem_findingsFrom_iff.mpr ⟨number, line, hline, ?_⟩
  rw [Nat.zero_add]
  exact (mem_lineFindings_undeclared_iff rfl).mpr ⟨hexempt, hmem⟩

/-- The search for a terminator passes a function or ends there. -/
theorem isClosedBy_of_isFunctionLine (h : IsFunctionLine line) (rest : List (List Char)) :
    isClosedBy (line :: rest) ↔ separator? functionKeyword line ≠ some ' ' ∧ isClosedBy rest := by
  have hends : endsConditional line = false := by
    rw [← Bool.not_eq_true]
    intro hends
    obtain ⟨name, hshape⟩ := h
    rw [shape_of_endsConditional hends] at hshape
    contradiction
  rw [isClosedBy, hends, Bool.false_or, Bool.and_eq_true, Bool.not_eq_true', ← Bool.not_eq_true,
    h.startsBlock_iff]

/-- The diagnostics agree with the index about a declaration if a space follows its keyword.
Otherwise they check the names on the line, and let a conditional go on past it. -/
theorem space_decides (index : Symbol.Index) (uri : String)
    (hline : (lines text)[number]? = some line) :
    SpaceDecides index uri text number line where
  declaration := IsVariableLine.startsDeclaration_iff
  block := IsFunctionLine.startsBlock_iff
  skipped h hspace finding hfinding hnumber name :=
    undeclared_notMem_of_startsDeclaration hline (h.startsDeclaration_iff.mpr hspace) hfinding
      hnumber name
  checked h hspace before token after hunknown := by
    refine undeclared_mem_of_isUnknown hline h.isExempt ?_ hunknown
    rwa [← Bool.not_eq_true, h.startsDeclaration_iff]
  search h := by
    obtain ⟨hlt, hget⟩ := List.getElem?_eq_some_iff.mp hline
    rw [List.drop_eq_getElem_cons hlt, hget]
    exact isClosedBy_of_isFunctionLine h _

end Line

def tabbedVariable : List Char := "let\tx = y".toList

def tabbedFunction : List Char := "fn\tf()".toList

def tabbedText : String := "if x\nfn\tf()\nendif\nlet\tx = y"

theorem space_decides_of_tabs :
    (lines tabbedText)[1]? = some tabbedFunction ∧ isClosedBy ((lines tabbedText).drop 1) ∧
      (lines tabbedText)[3]? = some tabbedVariable ∧
      Finding.undeclared 3 "let\tx = ".toList ['y'] ∈
        findings (Symbol.Index.empty.reindex "a.inmu" tabbedText) "a.inmu" tabbedText := by
  have hfunction : (lines tabbedText)[1]? = some tabbedFunction := by decide +kernel
  have hvariable : (lines tabbedText)[3]? = some tabbedVariable := by decide +kernel
  let index := Symbol.Index.empty.reindex "a.inmu" tabbedText
  have hsearch := (space_decides index "a.inmu" hfunction).search ⟨"f", by decide +kernel⟩
  have hchecked := (space_decides index "a.inmu" hvariable).checked
    (.inl ⟨"x", by decide +kernel⟩) (by decide +kernel)
  refine ⟨hfunction, hsearch.mpr ⟨by decide +kernel, by decide +kernel⟩, hvariable,
    hchecked _ _ [] ⟨?_, ?_, ?_, ?_, ?_, ?_⟩⟩
  case refine_3 => simp
  all_goals decide +kernel

/-- After a tab the index records a declaration, and the diagnostics see none. -/
theorem tab_divides_views :
    shape tabbedVariable = .declaration "x" .variable ∧ startsDeclaration tabbedVariable = false ∧
      isBareDeclaration "let\ty".toList ∧ startsDeclaration "let\ty".toList = false ∧
      shape tabbedFunction = .declaration "f" .function ∧ startsBlock tabbedFunction = false := by
  decide +kernel

end Diagnose

end ScriptSense
