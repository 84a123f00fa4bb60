import ScriptSense.Proofs.Diagnostic.Conditionals
import ScriptSense.Proofs.Symbol.Grouping
import ScriptSense.Proofs.Text.Lines

/-!
# One more terminator

A terminator after the last line is found from the last line that begins something, and from no
other. The report loses the warning about that line, if it had one, and is otherwise the same.
-/

namespace ScriptSense

open Text Script

namespace Script

/-- The line begins a conditional or a function, and no line below it does. -/
def startsLastBlock (lines : List (List Char)) (number : Nat) : Bool :=
  lines[number]?.any startsBlock && (lines.drop (number + 1)).all (!startsBlock ·)

/-- The second text has a terminator after the lines of the first, apart from blank lines at the
ends of the two. -/
def TerminatorAppended (text other : String) : Prop :=
  ∃ kept terminator blanks more, lines text = kept ++ blanks ∧
    lines other = kept ++ terminator :: more ∧ endsConditional terminator ∧
    (∀ line ∈ blanks, isBlankLine line) ∧ ∀ line ∈ more, isBlankLine line

/-- Every text can be given a terminator of its own line. -/
theorem terminatorAppended_newline (text : String) :
    TerminatorAppended text (text ++ "\n" ++ String.ofList conditionalEnd) := by
  refine ⟨lines text, conditionalEnd, [], [], (List.append_nil _).symm, ?_, by decide, by simp,
    by simp⟩
  rw [lines_append_newline]
  rfl

/-- Nothing begins between a conditional and its terminator, so this one belongs to no other
conditional. -/
theorem Discharges.eq_of_isOpenConditional {lines : List (List Char)}
    {first second terminator : Nat} (hfirst : lines[first]?.any isOpenConditional)
    (hsecond : lines[second]?.any isOpenConditional) (h : Discharges lines first terminator)
    (hother : Discharges lines second terminator) : first = second := by
  have hstarts {number : Nat} (hopen : lines[number]?.any isOpenConditional) :
      lines[number]?.any startsBlock := by
    obtain ⟨line, hline, hopen⟩ := (Option.any_eq_true _ _).mp hopen
    rw [hline]
    exact startsBlock_of_isOpenConditional hopen
  rcases Nat.lt_trichotomy first second with hlt | heq | hlt
  · have hnone := h.between second hlt hother.below
    rw [hstarts hsecond] at hnone
    contradiction
  · exact heq
  · have hnone := hother.between first hlt h.below
    rw [hstarts hfirst] at hnone
    contradiction

section LastBlock

variable {lines rest tail : List (List Char)} {line : List Char} {number other : Nat}

theorem startsLastBlock_cons_zero :
    startsLastBlock (line :: rest) 0 = (startsBlock line && rest.all (!startsBlock ·)) := rfl

theorem startsLastBlock_cons_succ :
    startsLastBlock (line :: rest) (number + 1) = startsLastBlock rest number := rfl

theorem startsLastBlock_append_blank (h : ∀ line ∈ tail, isBlankLine line) :
    startsLastBlock (lines ++ tail) number = startsLastBlock lines number := by
  have hnone : tail.all (!startsBlock ·) := by
    rw [List.all_eq_true]
    intro line hline
    rw [startsBlock_of_isBlankLine (h line hline)]
    rfl
  induction lines generalizing number with
  | nil =>
    rw [List.nil_append, startsLastBlock, startsLastBlock, Bool.eq_iff_iff]
    constructor
    · intro hlast
      obtain ⟨line, hline, hstarts⟩ := (Option.any_eq_true _ _).mp (Bool.and_eq_true_iff.mp hlast).1
      rw [startsBlock_of_isBlankLine (h line (List.mem_of_getElem? hline))] at hstarts
      contradiction
    · intro hlast
      simp at hlast
  | cons line rest ih =>
    cases number with
    | zero => rw [List.cons_append, startsLastBlock_cons_zero, startsLastBlock_cons_zero,
        List.all_append, hnone, Bool.and_true]
    | succ number => exact ih

theorem eq_of_startsLastBlock (h : startsLastBlock lines number)
    (hother : startsLastBlock lines other) : number = other := by
  have hnotBelow {first second : Nat} (hfirst : startsLastBlock lines first)
      (hsecond : startsLastBlock lines second) : ¬first < second := by
    intro hlt
    obtain ⟨line, hline, hstarts⟩ := (Option.any_eq_true _ _).mp (Bool.and_eq_true_iff.mp hsecond).1
    obtain ⟨between, rfl⟩ := Nat.exists_eq_add_of_le (Nat.succ_le_of_lt hlt)
    have hbelow : line ∈ lines.drop (first + 1) := by
      rw [← List.getElem?_drop] at hline
      exact List.mem_of_getElem? hline
    have hnot := List.all_eq_true.mp (Bool.and_eq_true_iff.mp hfirst).2 line hbelow
    rw [hstarts] at hnot
    contradiction
  exact Nat.le_antisymm (Nat.not_lt.mp (hnotBelow hother h)) (Nat.not_lt.mp (hnotBelow h hother))

end LastBlock

end Script

namespace Diagnose

variable {declared : String → Bool} {number : Nat} {line terminator : List Char}
  {lines rest tail : List (List Char)}

theorem lineFindings_of_endsConditional (h : endsConditional line) :
    lineFindings declared number line rest = [] := by
  -- The line is read without its margins, and then it is the keyword alone.
  have hplace : (List.replicate number [] ++ line :: rest).drop number = line :: rest :=
    List.drop_left' List.length_replicate
  have htrim : trim line = conditionalEnd := eq_of_beq h
  have hword : identifiers conditionalEnd = [⟨0, conditionalEnd⟩] := by decide +kernel
  have hreserved : isReserved (Word.mk 0 conditionalEnd).text := by decide
  have hopen : isOpenConditional conditionalEnd = false := rfl
  rw [lineFindings_eq_map_indented hplace, htrim, List.map_eq_nil_iff, lineFindings,
    if_neg (by decide), bareDeclarations, if_neg (by decide), unbalancedParentheses,
    if_neg (by decide), if_neg (by decide), danglingConditionals, hopen, Bool.false_and,
    if_neg Bool.false_ne_true, undeclaredIdentifiers, if_neg (by decide), hword]
  simp [hreserved]

theorem findingsFrom_append_blank (h : ∀ line ∈ tail, isBlankLine line) (number : Nat) :
    findingsFrom declared number (lines ++ tail) = findingsFrom declared number lines := by
  induction lines generalizing number with
  | nil =>
    rw [List.nil_append, findingsFrom, List.eq_nil_iff_forall_not_mem]
    intro finding hfinding
    obtain ⟨index, line, hline, hfinding⟩ := mem_findingsFrom_iff.mp hfinding
    rw [lineFindings_of_isBlankLine (h line (List.mem_of_getElem? hline))] at hfinding
    exact List.not_mem_nil hfinding
  | cons line rest ih =>
    have hclosed : isClosedBy (rest ++ tail) = isClosedBy rest :=
      isClosedBy_append fun line hline ↦ endsConditional_of_isBlankLine (h line hline)
    rw [List.cons_append, findingsFrom, lineFindings_congr hclosed, ih, findingsFrom]

/-- The findings but for those about conditionals on the discharged lines. -/
def exceptDangling (discharged : Nat → Bool) (findings : List Finding) : List Finding :=
  findings.filter fun finding ↦
    !(finding.problem == .danglingConditional && discharged finding.range.start.line)

theorem exceptDangling_append (discharged : Nat → Bool) (findings others : List Finding) :
    exceptDangling discharged (findings ++ others) =
      exceptDangling discharged findings ++ exceptDangling discharged others :=
  List.filter_append findings others

theorem exceptDangling_congr {discharged other : Nat → Bool} {findings : List Finding}
    (h : ∀ finding ∈ findings,
      discharged finding.range.start.line = other finding.range.start.line) :
    exceptDangling discharged findings = exceptDangling other findings := by
  apply List.filter_congr
  intro finding hfinding
  rw [h finding hfinding]

theorem danglingConditionals_append_terminator (hends : endsConditional terminator) :
    danglingConditionals number line (rest ++ [terminator]) =
      exceptDangling (fun _ ↦ startsLastBlock (line :: rest) 0)
        (danglingConditionals number line rest) := by
  rw [danglingConditionals, danglingConditionals, isClosedBy_append_terminator hends,
    startsLastBlock_cons_zero]
  cases hopen : isOpenConditional line with
  | false => rfl
  | true =>
    rw [startsBlock_of_isOpenConditional hopen]
    cases isClosedBy rest <;> cases hall : rest.all (!startsBlock ·) <;>
      simp [exceptDangling]

theorem lineFindings_append_terminator (hends : endsConditional terminator) :
    lineFindings declared number line (rest ++ [terminator]) =
      exceptDangling (fun _ ↦ startsLastBlock (line :: rest) 0)
        (lineFindings declared number line rest) := by
  obtain ⟨before, after, hothers, heq⟩ := exists_lineFindings declared number line
  have hkept {others : List Finding} (hsub : others ⊆ before ++ after) :
      exceptDangling (fun _ ↦ startsLastBlock (line :: rest) 0) others = others := by
    rw [exceptDangling, List.filter_eq_self]
    intro finding hfinding
    simp [hothers finding (hsub hfinding)]
  rw [heq, heq, danglingConditionals_append_terminator hends, exceptDangling_append,
    exceptDangling_append, hkept (List.subset_append_left before after),
    hkept (List.subset_append_right before after)]

theorem findingsFrom_append_terminator (hends : endsConditional terminator) (number : Nat) :
    findingsFrom declared number (lines ++ [terminator]) =
      exceptDangling (fun place ↦ startsLastBlock lines (place - number))
        (findingsFrom declared number lines) := by
  induction lines generalizing number with
  | nil =>
    have hnone : lineFindings declared number terminator [] = [] :=
      lineFindings_of_endsConditional hends
    simp only [List.nil_append, findingsFrom, hnone]
    rfl
  | cons line rest ih =>
    rw [List.cons_append, findingsFrom, lineFindings_append_terminator hends, ih, findingsFrom,
      exceptDangling_append]
    -- The findings of the first line are on the line `number`, and all others are further down.
    congr 1
    · apply exceptDangling_congr
      intro finding hfinding
      rw [(line_of_mem_lineFindings hfinding).1, Nat.sub_self]
    · apply exceptDangling_congr
      intro finding hfinding
      obtain ⟨below, hbelow⟩ := Nat.exists_eq_add_of_le (le_line_of_mem_findingsFrom hfinding)
      have hnumber : number + 1 + below - number = below + 1 := by omega
      rw [hbelow, Nat.add_sub_cancel_left, hnumber, startsLastBlock_cons_succ]

/-- Blank lines at the ends of the two texts make no difference. -/
theorem findingsFrom_terminatorAppended {text other : String} (h : TerminatorAppended text other) :
    findingsFrom declared 0 (Text.lines other) =
      exceptDangling (startsLastBlock (Text.lines text))
        (findingsFrom declared 0 (Text.lines text)) := by
  obtain ⟨kept, terminator, blanks, more, htext, hother, hends, hblanks, hmore⟩ := h
  have hlast : startsLastBlock (kept ++ blanks) = startsLastBlock kept :=
    funext fun _ ↦ startsLastBlock_append_blank hblanks
  rw [htext, hother, hlast, List.append_cons, findingsFrom_append_blank hmore,
    findingsFrom_append_blank hblanks, findingsFrom_append_terminator hends]
  rfl

end Diagnose

namespace Symbol

/-- Neither a terminator nor a blank line declares anything. -/
theorem scan_terminatorAppended {text other : String} (h : TerminatorAppended text other)
    (uri : String) : scan uri other = scan uri text := by
  obtain ⟨kept, terminator, blanks, more, htext, hother, hends, hblanks, hmore⟩ := h
  have hblank {tail : List (List Char)} (htail : ∀ line ∈ tail, isBlankLine line) :
      ∀ line ∈ tail, ∀ name kind, shape line ≠ .declaration name kind := by
    intro line hline name kind
    rw [shape_of_isBlankLine (htail line hline)]
    exact Shape.noConfusion
  have hterminator : ∀ line ∈ terminator :: more, ∀ name kind,
      shape line ≠ .declaration name kind := by
    rw [List.forall_mem_cons]
    refine ⟨fun name kind ↦ ?_, hblank hmore⟩
    rw [shape_of_endsConditional hends]
    exact Shape.noConfusion
  rw [scan, scan, htext, hother, scanFrom_append_eq_self (hblank hblanks),
    scanFrom_append_eq_self hterminator]

theorem declaredBy_terminatorAppended {text other : String} (h : TerminatorAppended text other)
    (uri : String) : declaredBy uri other = declaredBy uri text := by
  funext name
  rw [declaredBy, scan_terminatorAppended h, declaredBy]

end Symbol

/-! ## The report -/

namespace Diagnose

/-- Whether a diagnostic warns of a conditional on one of the given lines. -/
def warnsOfDangling (discharged : Nat → Bool) (diagnostic : Diagnostic) : Bool :=
  diagnostic.isDangling && discharged diagnostic.range.start.line

theorem filter_not_warnsOfDangling (discharged : Nat → Bool) (findings : List Finding)
    (source : String) :
    (findings.map (Finding.toDiagnostic source)).filter (!warnsOfDangling discharged ·) =
      (exceptDangling discharged findings).map (Finding.toDiagnostic source) := by
  apply filter_map_toDiagnostic
  intro finding
  rw [warnsOfDangling, Diagnostic.isDangling_toDiagnostic]
  rfl

/-- Of warnings about different lines, one at most is about the line that begins last. -/
theorem length_filter_warnsOfDangling_le_one {diagnostics : List Diagnostic}
    (h : (diagnostics.filter (·.isDangling)).Pairwise
      fun earlier later ↦ earlier.range.start.line < later.range.start.line)
    (lines : List (List Char)) :
    (diagnostics.filter (warnsOfDangling (startsLastBlock lines))).length ≤ 1 := by
  have hsplit : diagnostics.filter (warnsOfDangling (startsLastBlock lines)) =
      (diagnostics.filter (·.isDangling)).filter
        fun diagnostic ↦ startsLastBlock lines diagnostic.range.start.line := by
    rw [List.filter_filter]
    apply List.filter_congr
    intro diagnostic _
    rw [warnsOfDangling, Bool.and_comm]
  have hincreasing := h.filter fun diagnostic ↦ startsLastBlock lines diagnostic.range.start.line
  rw [← hsplit] at hincreasing
  have hlast {diagnostic : Diagnostic}
      (hmem : diagnostic ∈ diagnostics.filter (warnsOfDangling (startsLastBlock lines))) :
      startsLastBlock lines diagnostic.range.start.line :=
    (Bool.and_eq_true_iff.mp (List.mem_filter.mp hmem).2).2
  cases hremoved : diagnostics.filter (warnsOfDangling (startsLastBlock lines)) with
  | nil => exact Nat.zero_le 1
  | cons first others =>
    cases others with
    | nil => exact Nat.le_refl 1
    | cons second others =>
      rw [hremoved] at hlast hincreasing
      have hlt := List.rel_of_pairwise_cons hincreasing List.mem_cons_self
      have heq := eq_of_startsLastBlock (hlast List.mem_cons_self)
        (hlast (List.mem_cons_of_mem first List.mem_cons_self))
      exact absurd heq (Nat.ne_of_lt hlt)

theorem diagnose_terminatorAppended {policy : Policy} {index after : Symbol.Index}
    {uri text other : String} (hlimit : (findings index uri text).length ≤ policy.limit)
    (happended : TerminatorAppended text other)
    (hafter : ∀ name, after.declares name uri = index.declares name uri) :
    policy.diagnose after uri other = (policy.diagnose index uri text).filter
      (!warnsOfDangling (startsLastBlock (Text.lines text)) ·) := by
  have hfindings : findings after uri other =
      exceptDangling (startsLastBlock (Text.lines text)) (findings index uri text) := by
    rw [findings, funext hafter, findingsFrom_terminatorAppended happended, findings]
  have hle : (findings after uri other).length ≤ policy.limit := by
    rw [hfindings]
    exact Nat.le_trans (List.length_filter_le _ _) hlimit
  rw [diagnose_eq_map hle, hfindings, diagnose_eq_map hlimit, filter_not_warnsOfDangling]

end Diagnose

end ScriptSense
