import ScriptSense.Proofs.Diagnostic.Indentation
import ScriptSense.Proofs.Diagnostic.Place
import ScriptSense.Proofs.Diagnostic.Undeclared
import ScriptSense.Proofs.Symbol.Scan
import ScriptSense.Proofs.Workspace.Reports

/-!
# Conditionals that are never ended

A conditional without a brace is ended by the first terminator below it, if no conditional and no
function begins in between. So a terminator ends one conditional at most, and no more conditionals
are ended than there are terminators.
-/

namespace ScriptSense

open Text Script

namespace Script

/-- The terminator is below the conditional, and nothing begins between the two. -/
structure Discharges (lines : List (List Char)) (conditional terminator : Nat) : Prop where
  below : conditional < terminator
  ends : lines[terminator]?.any endsConditional
  between : ∀ number, conditional < number → number < terminator →
    lines[number]?.any startsBlock = false

/-- The line is a conditional without a brace, and no terminator ends it. -/
structure IsDangling (lines : List (List Char)) (number : Nat) (line : List Char) : Prop where
  line_eq : lines[number]? = some line
  conditional : isOpenConditional line
  unended : ∀ terminator, ¬Discharges lines number terminator

section Line

variable {line : List Char}

theorem startsBlock_of_isOpenConditional (h : isOpenConditional line) : startsBlock line := by
  rw [startsBlock, (Bool.and_eq_true_iff.mp h).1, Bool.true_or]

theorem isOpenConditional_of_not_startsBlock (h : startsBlock line = false) :
    isOpenConditional line = false := by
  rw [isOpenConditional, (Bool.or_eq_false_iff.mp h).1, Bool.false_and]

theorem startsBlock_of_endsConditional (h : endsConditional line) : startsBlock line = false := by
  have htrim : trim line = conditionalEnd := eq_of_beq h
  rw [startsBlock, startsWithWord, startsWithWord, htrim]
  decide

theorem shape_of_endsConditional (h : endsConditional line) : shape line = .statement := by
  have htrim : trim line = conditionalEnd := eq_of_beq h
  rw [← ignoresMargins_shape.trim, htrim]
  decide

theorem shape_of_isBlankLine (h : isBlankLine line) : shape line = .blank := by
  rw [shape, if_pos h]

theorem endsConditional_of_isBlankLine (h : isBlankLine line) : endsConditional line = false := by
  rw [endsConditional, trim_of_isBlankLine h]
  rfl

theorem startsBlock_of_isBlankLine (h : isBlankLine line) : startsBlock line = false := by
  rw [startsBlock, startsWithWord, startsWithWord, trim_of_isBlankLine h]
  rfl

/-- A conditional is neither blank nor a comment. -/
theorem isExempt_of_isOpenConditional (h : isOpenConditional line) : isExempt line = false := by
  obtain ⟨rest, hrest⟩ := List.isPrefixOf_iff_prefix.mp (Bool.and_eq_true_iff.mp h).1
  have hblank : isBlankLine line = false := by
    rw [← Bool.not_eq_true]
    intro hblank
    rw [trim_of_isBlankLine hblank] at hrest
    cases hrest
  rw [isExempt_eq, hblank, isComment, ← hrest]
  rfl

end Line

end Script

namespace Diagnose

section Search

variable {lines rest tail : List (List Char)} {number : Nat} {line terminator : List Char}

theorem isClosedBy_iff : isClosedBy rest ↔ ∃ index : Nat, rest[index]?.any endsConditional ∧
    ∀ before < index, rest[before]?.any startsBlock = false := by
  induction rest with
  | nil => simp [isClosedBy]
  | cons line rest ih =>
    rw [isClosedBy, Bool.or_eq_true, Bool.and_eq_true, Bool.not_eq_true', ih]
    constructor
    · rintro (hends | ⟨hstarts, index, hends, hbefore⟩)
      · exact ⟨0, hends, fun before hlt ↦ absurd hlt (Nat.not_lt_zero before)⟩
      · refine ⟨index + 1, hends, fun before hlt ↦ ?_⟩
        cases before with
        | zero => exact hstarts
        | succ before => exact hbefore before (Nat.lt_of_succ_lt_succ hlt)
    · rintro ⟨index, hends, hbefore⟩
      cases index with
      | zero => exact .inl hends
      | succ index =>
        exact .inr ⟨hbefore 0 (Nat.succ_pos index), index, hends,
          fun before hlt ↦ hbefore (before + 1) (Nat.succ_lt_succ hlt)⟩

/-- The search below a line finds the terminators that discharge a conditional there. -/
theorem isClosedBy_drop_iff :
    isClosedBy (lines.drop (number + 1)) ↔ ∃ terminator, Discharges lines number terminator := by
  simp only [isClosedBy_iff, List.getElem?_drop]
  constructor
  · rintro ⟨index, hends, hbefore⟩
    refine ⟨number + 1 + index, by omega, hends, fun between hlow hhigh ↦ ?_⟩
    obtain ⟨before, rfl⟩ := Nat.exists_eq_add_of_lt hlow
    rw [Nat.add_right_comm]
    exact hbefore before (by omega)
  · rintro ⟨terminator, hbelow, hends, hbetween⟩
    obtain ⟨index, rfl⟩ := Nat.exists_eq_add_of_lt hbelow
    rw [Nat.add_right_comm] at hends
    exact ⟨index, hends, fun before hlt ↦ hbetween _ (by omega) (by omega)⟩

theorem isDangling_iff : IsDangling lines number line ↔ lines[number]? = some line ∧
    isOpenConditional line ∧ isClosedBy (lines.drop (number + 1)) = false := by
  rw [← Bool.not_eq_true, isClosedBy_drop_iff, not_exists]
  exact ⟨fun h ↦ ⟨h.line_eq, h.conditional, h.unended⟩, fun ⟨hline, hopen, hnone⟩ ↦
    ⟨hline, hopen, hnone⟩⟩

theorem isClosedBy_append (h : ∀ line ∈ tail, endsConditional line = false) :
    isClosedBy (rest ++ tail) = isClosedBy rest := by
  induction rest with
  | nil =>
    rw [List.nil_append, isClosedBy, ← Bool.not_eq_true, isClosedBy_iff]
    rintro ⟨index, hends, -⟩
    rw [Option.any_eq_true] at hends
    obtain ⟨line, hline, hends⟩ := hends
    rw [h line (List.mem_of_getElem? hline)] at hends
    contradiction
  | cons line rest ih => rw [List.cons_append, isClosedBy, ih, isClosedBy]

/-- A terminator after the last line is found unless something begins before it. -/
theorem isClosedBy_append_terminator (h : endsConditional terminator) :
    isClosedBy (rest ++ [terminator]) = (isClosedBy rest || rest.all (!startsBlock ·)) := by
  induction rest with
  | nil => simp [isClosedBy, h]
  | cons line rest ih =>
    rw [List.cons_append, isClosedBy, ih, isClosedBy, List.all_cons]
    cases endsConditional line <;> cases startsBlock line <;> simp

end Search

section Findings

variable {declared : String → Bool} {number : Nat} {line : List Char}
  {lines tail : List (List Char)} {finding : Finding}

/-- Of the rules, only the one for conditionals looks at the lines below, and no other finds
conditionals. -/
theorem exists_lineFindings (declared : String → Bool) (number : Nat) (line : List Char) :
    ∃ before after, (∀ finding ∈ before ++ after, finding.problem ≠ .danglingConditional) ∧
      ∀ rest, lineFindings declared number line rest =
        before ++ danglingConditionals number line rest ++ after := by
  by_cases hexempt : isExempt line
  · refine ⟨[], [], by simp, fun rest ↦ ?_⟩
    have hopen : isOpenConditional line = false := by
      rw [← Bool.not_eq_true]
      intro hopen
      rw [isExempt_of_isOpenConditional hopen] at hexempt
      contradiction
    rw [lineFindings, if_pos hexempt, danglingConditionals, hopen]
    rfl
  · refine ⟨bareDeclarations number line ++ unbalancedParentheses number line,
      undeclaredIdentifiers declared number line, ?_, fun rest ↦ ?_⟩
    · intro finding hfinding
      unfold bareDeclarations unbalancedParentheses undeclaredIdentifiers at hfinding
      grind
    · rw [lineFindings, if_neg hexempt]

theorem filter_lineFindings_dangling (rest : List (List Char)) :
    (lineFindings declared number line rest).filter (·.problem == .danglingConditional) =
      danglingConditionals number line rest := by
  obtain ⟨before, after, hothers, heq⟩ := exists_lineFindings declared number line
  have hnone {others : List Finding} (hsub : others ⊆ before ++ after) :
      others.filter (·.problem == .danglingConditional) = [] := by
    rw [List.filter_eq_nil_iff]
    intro finding hfinding
    simpa using hothers finding (hsub hfinding)
  have hself : (danglingConditionals number line rest).filter
      (·.problem == .danglingConditional) = danglingConditionals number line rest := by
    unfold danglingConditionals
    split <;> rfl
  rw [heq, List.filter_append, List.filter_append, hself,
    hnone (List.subset_append_left before after), hnone (List.subset_append_right before after),
    List.nil_append, List.append_nil]

theorem mem_danglingConditionals_iff {rest : List (List Char)} :
    finding ∈ danglingConditionals number line rest ↔ isOpenConditional line ∧
      isClosedBy rest = false ∧ finding = ⟨Range.wholeLine number line, .danglingConditional⟩ := by
  unfold danglingConditionals
  split
  · simp_all
  · simp_all

theorem mem_lineFindings_dangling_iff {rest : List (List Char)} :
    finding ∈ (lineFindings declared number line rest).filter (·.problem == .danglingConditional) ↔
      isOpenConditional line ∧ isClosedBy rest = false ∧
        finding = ⟨Range.wholeLine number line, .danglingConditional⟩ := by
  rw [filter_lineFindings_dangling, mem_danglingConditionals_iff]

theorem mem_findingsFrom_dangling_iff :
    finding ∈ (findingsFrom declared 0 lines).filter (·.problem == .danglingConditional) ↔
      ∃ number line, IsDangling lines number line ∧
        finding = ⟨Range.wholeLine number line, .danglingConditional⟩ := by
  rw [List.mem_filter, mem_findingsFrom_iff]
  simp only [isDangling_iff, Nat.zero_add]
  constructor
  · rintro ⟨⟨number, line, hline, hfinding⟩, hproblem⟩
    obtain ⟨hopen, hunended, heq⟩ :=
      mem_lineFindings_dangling_iff.mp (List.mem_filter.mpr ⟨hfinding, hproblem⟩)
    exact ⟨number, line, ⟨hline, hopen, hunended⟩, heq⟩
  · rintro ⟨number, line, ⟨hline, hopen, hunended⟩, rfl⟩
    have hmem : (⟨Range.wholeLine number line, .danglingConditional⟩ : Finding) ∈
        (lineFindings declared number line (lines.drop (number + 1))).filter
          (·.problem == .danglingConditional) :=
      mem_lineFindings_dangling_iff.mpr ⟨hopen, hunended, rfl⟩
    exact ⟨⟨number, line, hline, (List.mem_filter.mp hmem).1⟩, rfl⟩

theorem pairwise_dangling_findingsFrom (lines : List (List Char)) (number : Nat) :
    ((findingsFrom declared number lines).filter
      (·.problem == .danglingConditional)).Pairwise
        fun a b ↦ a.range.start.line < b.range.start.line := by
  induction lines generalizing number with
  | nil => exact .nil
  | cons line rest ih =>
    rw [findingsFrom, List.filter_append, filter_lineFindings_dangling, List.pairwise_append]
    refine ⟨?_, ih (number + 1), ?_⟩
    · unfold danglingConditionals
      split
      · exact List.pairwise_singleton _ _
      · exact .nil
    · intro a ha b hb
      obtain ⟨-, -, rfl⟩ := mem_danglingConditionals_iff.mp ha
      exact le_line_of_mem_findingsFrom (List.mem_of_mem_filter hb)

/-- A terminator below all the lines so far is one more than the conditionals among them need. -/
theorem countP_closed_add_le {all : List (List Char)} (h : all.drop number = lines) :
    ((lines.zipIdx number).countP fun numbered ↦
        isOpenConditional numbered.1 && isClosedBy (all.drop (numbered.2 + 1))) +
      (isClosedBy lines).toNat ≤ lines.countP endsConditional := by
  induction lines generalizing number with
  | nil => exact Nat.le_refl 0
  | cons line rest ih =>
    have hrest := ih (drop_succ h)
    rw [List.zipIdx_cons, List.countP_cons, List.countP_cons, drop_succ h, isClosedBy]
    cases hstarts : startsBlock line with
    | true =>
      have hends : endsConditional line = false := by
        rw [← Bool.not_eq_true]
        intro hends
        rw [startsBlock_of_endsConditional hends] at hstarts
        contradiction
      -- What begins here takes the terminator that the lines below may have left.
      cases isOpenConditional line <;> cases hclosed : isClosedBy rest <;> simp_all
      omega
    | false =>
      rw [isOpenConditional_of_not_startsBlock hstarts]
      cases endsConditional line <;> simp_all
      omega

end Findings

end Diagnose

/-- Whether a diagnostic warns of a conditional. -/
def Diagnostic.isDangling (diagnostic : Diagnostic) : Bool :=
  diagnostic.message == Problem.danglingConditional.message

theorem Diagnostic.isDangling_toDiagnostic (source : String) (finding : Finding) :
    (finding.toDiagnostic source).isDangling = (finding.problem == .danglingConditional) :=
  Problem.message_injective.beq_eq

/-- The warning about a conditional, from the tool `source`. -/
def danglingWarning (source : String) (number : Nat) (line : List Char) : Diagnostic :=
  Finding.toDiagnostic source ⟨Range.wholeLine number line, .danglingConditional⟩

/-- The report warns of the conditionals that no terminator ends, of each once and in the order of
the lines, and as many conditionals at most as there are terminators go without a warning. -/
structure WarnsOfDangling (source : String) (lines : List (List Char))
    (diagnostics : List Diagnostic) : Prop where
  mem_iff : ∀ diagnostic, diagnostic ∈ diagnostics.filter (·.isDangling) ↔
    ∃ number line, IsDangling lines number line ∧
      diagnostic = danglingWarning source number line
  increasing : (diagnostics.filter (·.isDangling)).Pairwise
    fun earlier later ↦ earlier.range.start.line < later.range.start.line
  countP_le : (lines.zipIdx.countP fun numbered ↦ isOpenConditional numbered.1 &&
      !diagnostics.contains (danglingWarning source numbered.2 numbered.1)) ≤
    lines.countP endsConditional

namespace Diagnose

variable {declared : String → Bool} {lines : List (List Char)}

theorem danglingWarning_mem_iff {source : String} {number : Nat} {line : List Char}
    (hline : lines[number]? = some line) :
    danglingWarning source number line ∈
        (findingsFrom declared 0 lines).map (Finding.toDiagnostic source) ↔
      IsDangling lines number line := by
  rw [danglingWarning, List.mem_map_of_injective (Finding.toDiagnostic_injective source)]
  constructor
  · intro hmem
    obtain ⟨other, otherLine, hdangling, heq⟩ :=
      mem_findingsFrom_dangling_iff.mp (List.mem_filter.mpr ⟨hmem, rfl⟩)
    obtain rfl : number = other := congrArg (·.range.start.line) heq
    obtain rfl := Option.some.inj (hline.symm.trans hdangling.line_eq)
    exact hdangling
  · intro hdangling
    exact List.mem_of_mem_filter
      (mem_findingsFrom_dangling_iff.mpr ⟨number, line, hdangling, rfl⟩)

theorem warnsOfDangling_findingsFrom (source : String) (declared : String → Bool)
    (lines : List (List Char)) :
    WarnsOfDangling source lines
      ((findingsFrom declared 0 lines).map (Finding.toDiagnostic source)) where
  mem_iff diagnostic := by
    rw [filter_map_toDiagnostic (Diagnostic.isDangling_toDiagnostic source), List.mem_map]
    constructor
    · rintro ⟨finding, hfinding, rfl⟩
      obtain ⟨number, line, hdangling, rfl⟩ := mem_findingsFrom_dangling_iff.mp hfinding
      exact ⟨number, line, hdangling, rfl⟩
    · rintro ⟨number, line, hdangling, rfl⟩
      exact ⟨_, mem_findingsFrom_dangling_iff.mpr ⟨number, line, hdangling, rfl⟩, rfl⟩
  increasing := by
    rw [filter_map_toDiagnostic (Diagnostic.isDangling_toDiagnostic source), List.pairwise_map]
    exact pairwise_dangling_findingsFrom lines 0
  countP_le := by
    have hclosed := countP_closed_add_le (List.drop_zero : lines.drop 0 = lines)
    refine Nat.le_trans (Nat.le_of_eq (List.countP_congr ?_)) (Nat.le_of_add_right_le hclosed)
    intro numbered hnumbered
    have hline := List.mem_zipIdx_iff_getElem?.mp hnumbered
    rw [Bool.and_eq_true, Bool.and_eq_true, Bool.not_eq_true', ← Bool.not_eq_true,
      List.contains_iff_mem, danglingWarning_mem_iff hline, isDangling_iff]
    simp_all

end Diagnose

end ScriptSense
