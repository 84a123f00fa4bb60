import ScriptSense.Proofs.Diagnostic.Conditionals
import ScriptSense.Proofs.Script.Declaration
import ScriptSense.Proofs.Symbol.Edits
import ScriptSense.Proofs.Text.Lines
import ScriptSense.Proofs.Workspace.Reports

/-!
# Declaring a name clears its warnings

A declaration that is inserted into a text has no findings of its own and changes those of the other
lines in two ways only: the lines below it are one further down, and its name is not undeclared any
more.
-/

namespace ScriptSense

open Text Script

/-- The range once a line is inserted at the boundary. -/
def Range.moveDown (boundary : Nat) (range : Range) : Range :=
  ⟨⟨Script.moveDown boundary range.start.line, range.start.column⟩,
    ⟨Script.moveDown boundary range.stop.line, range.stop.column⟩⟩

def Finding.moveDown (boundary : Nat) (finding : Finding) : Finding :=
  { finding with range := finding.range.moveDown boundary }

def Diagnostic.moveDown (boundary : Nat) (diagnostic : Diagnostic) : Diagnostic :=
  { diagnostic with range := diagnostic.range.moveDown boundary }

/-- Whether a diagnostic warns that the name is undeclared. -/
def Diagnostic.missesName (name : String) (diagnostic : Diagnostic) : Bool :=
  diagnostic.message == (Problem.undeclared name).message

theorem Diagnostic.missesName_toDiagnostic (source name : String) (finding : Finding) :
    (finding.toDiagnostic source).missesName name = (finding.problem == .undeclared name) :=
  Problem.message_injective.beq_eq

namespace Diagnose

variable {declared : String → Bool} {number boundary : Nat} {line added : List Char}
  {lines rest : List (List Char)} {name : String}

theorem lineFindings_moveDown (declared : String → Bool) (boundary number : Nat) (line : List Char)
    (rest : List (List Char)) :
    lineFindings declared (moveDown boundary number) line rest =
      (lineFindings declared number line rest).map (Finding.moveDown boundary) := by
  rw [lineFindings_eq_map_atLine, lineFindings_eq_map_atLine declared number, List.map_map]
  rfl

/-- All lines are below the boundary. -/
theorem findingsFrom_add_one (h : boundary ≤ number) :
    findingsFrom declared (number + 1) lines =
      (findingsFrom declared number lines).map (Finding.moveDown boundary) := by
  induction lines generalizing number with
  | nil => rfl
  | cons line rest ih =>
    rw [findingsFrom, findingsFrom, List.map_append, ih (Nat.le_succ_of_le h),
      ← lineFindings_moveDown, moveDown_of_le h]

/-- A search for a terminator goes past lines that are none and begin nothing. -/
theorem isClosedBy_insertIdx (hends : endsConditional added = false)
    (hstarts : startsBlock added = false) (index : Nat) (rest : List (List Char)) :
    isClosedBy (rest.insertIdx index added) = isClosedBy rest := by
  induction rest generalizing index with
  | nil =>
    cases index with
    | zero => simp only [List.insertIdx_zero, isClosedBy, hends, Bool.and_false, Bool.or_self]
    | succ index => rfl
  | cons line rest ih =>
    cases index with
    | zero => rw [List.insertIdx_zero, isClosedBy, hends, hstarts, Bool.false_or, Bool.not_false,
        Bool.true_and]
    | succ index => rw [List.insertIdx_succ_cons, isClosedBy, ih, isClosedBy]

theorem findingsFrom_insertIdx (hends : endsConditional added = false)
    (hstarts : startsBlock added = false)
    (hnone : ∀ number rest, lineFindings declared number added rest = [])
    {index : Nat} (hle : index ≤ lines.length) (number : Nat) :
    findingsFrom declared number (lines.insertIdx index added) =
      (findingsFrom declared number lines).map (Finding.moveDown (number + index)) := by
  induction index generalizing lines number with
  | zero =>
    rw [List.insertIdx_zero, findingsFrom, hnone, List.nil_append,
      findingsFrom_add_one (Nat.le_refl number), Nat.add_zero]
  | succ index ih =>
    cases lines with
    | nil => exact absurd hle (Nat.not_succ_le_zero index)
    | cons line rest =>
      -- The first line is above the boundary, and it sees the inserted one only in its search.
      have hsame : lineFindings declared number line (rest.insertIdx index added) =
          lineFindings declared number line rest :=
        lineFindings_congr (isClosedBy_insertIdx hends hstarts index rest)
      have hplace : moveDown (number + (index + 1)) number = number :=
        moveDown_of_lt (Nat.lt_add_of_pos_right (Nat.succ_pos index))
      rw [List.insertIdx_succ_cons, findingsFrom, hsame, ih (Nat.le_of_succ_le_succ hle),
        findingsFrom, List.map_append, ← lineFindings_moveDown, hplace, Nat.succ_add_eq_add_succ]

/-- The findings but for those of one undeclared name. -/
def exceptName (name : String) (findings : List Finding) : List Finding :=
  findings.filter (·.problem != .undeclared name)

theorem exceptName_append (name : String) (findings others : List Finding) :
    exceptName name (findings ++ others) = exceptName name findings ++ exceptName name others :=
  List.filter_append findings others

theorem undeclaredIdentifiers_declare (declared : String → Bool) (name : String) (number : Nat)
    (line : List Char) :
    undeclaredIdentifiers (fun known ↦ declared known || known == name) number line =
      exceptName name (undeclaredIdentifiers declared number line) := by
  unfold undeclaredIdentifiers
  split
  · rfl
  · rw [exceptName, List.filter_map, List.filter_filter]
    congr 1
    apply List.filter_congr
    intro word _
    have hproblem : (Problem.undeclared word.text == .undeclared name) = (word.text == name) :=
      Function.Injective.beq_eq fun _ _ ↦ Problem.undeclared.inj
    rw [Function.comp_apply, bne, hproblem, Bool.not_or, ← Bool.and_assoc, Bool.and_comm]

theorem lineFindings_declare (declared : String → Bool) (name : String) (number : Nat)
    (line : List Char) (rest : List (List Char)) :
    lineFindings (fun known ↦ declared known || known == name) number line rest =
      exceptName name (lineFindings declared number line rest) := by
  have hkept {findings : List Finding}
      (h : ∀ finding ∈ findings, finding.problem ≠ .undeclared name) :
      exceptName name findings = findings := by
    rw [exceptName, List.filter_eq_self]
    exact fun finding hfinding ↦ bne_iff_ne.mpr (h finding hfinding)
  have hbare : exceptName name (bareDeclarations number line) = bareDeclarations number line := by
    apply hkept
    unfold bareDeclarations
    split <;> simp
  have hunbalanced : exceptName name (unbalancedParentheses number line) =
      unbalancedParentheses number line := by
    apply hkept
    unfold unbalancedParentheses
    split
    · simp
    · split <;> simp
  have hdangling : exceptName name (danglingConditionals number line rest) =
      danglingConditionals number line rest := by
    apply hkept
    unfold danglingConditionals
    split <;> simp
  unfold lineFindings
  split
  · rfl
  · rw [exceptName_append, exceptName_append, exceptName_append, hbare, hunbalanced, hdangling,
      undeclaredIdentifiers_declare]

theorem findingsFrom_declare (declared : String → Bool) (name : String) (number : Nat)
    (lines : List (List Char)) :
    findingsFrom (fun known ↦ declared known || known == name) number lines =
      exceptName name (findingsFrom declared number lines) := by
  induction lines generalizing number with
  | nil => rfl
  | cons line rest ih =>
    rw [findingsFrom, lineFindings_declare, ih, findingsFrom, exceptName_append]

theorem lineFindings_declarationLine (hname : isName name.toList) (number : Nat)
    (rest : List (List Char)) : lineFindings declared number (declarationLine name) rest = [] := by
  have hcount {mark : Char} (hmark : isWordChar mark = false) (hother : mark ∉ [' ', '=']) :
      (declarationLine name).count mark = 0 :=
    List.count_eq_zero_of_not_mem (notMem_declarationLine hname hmark hother)
  have hopen : isOpenConditional (declarationLine name) = false :=
    isOpenConditional_of_not_startsBlock (startsBlock_declarationLine name)
  have hexempt : isExempt (declarationLine name) = false := by
    rw [isExempt, shape_declarationLine hname]
    rfl
  rw [lineFindings, hexempt, if_neg Bool.false_ne_true, bareDeclarations,
    isBareDeclaration_declarationLine, if_neg Bool.false_ne_true, unbalancedParentheses,
    hcount (by decide) (by decide), hcount (by decide) (by decide), if_neg (Nat.lt_irrefl 0),
    if_neg (Nat.lt_irrefl 0), danglingConditionals, hopen, Bool.false_and,
    if_neg Bool.false_ne_true, undeclaredIdentifiers,
    if_pos (startsDeclaration_declarationLine name)]
  rfl

/-- What is found once the name is declared: the same but for the findings about the name, and one
line further down below the declaration. -/
theorem findingsFrom_declarationInserted {text other : String} {blocks : List Block}
    (hname : isName name.toList) (hdivides : Divides (Text.lines text) blocks)
    (houtside : ∀ block ∈ blocks, ¬block.Encloses (Text.lines text) boundary)
    (hle : boundary ≤ (Text.lines text).length)
    (hother : Text.lines other = (Text.lines text).insertIdx boundary (declarationLine name))
    (uri : String) :
    findingsFrom (Symbol.declaredBy uri other) 0 (Text.lines other) =
      (exceptName name (findingsFrom (Symbol.declaredBy uri text) 0 (Text.lines text))).map
        (Finding.moveDown boundary) := by
  have hdeclared : Symbol.declaredBy uri other =
      fun known ↦ Symbol.declaredBy uri text known || known == name :=
    funext (Symbol.declaredBy_insertIdx hdivides houtside hle (shape_declarationLine hname) hother
      uri)
  rw [hother, hdeclared, findingsFrom_insertIdx (endsConditional_declarationLine name)
    (startsBlock_declarationLine name) (lineFindings_declarationLine hname) hle, Nat.zero_add,
    findingsFrom_declare]

theorem filter_not_missesName (source name : String) (findings : List Finding) :
    (findings.map (Finding.toDiagnostic source)).filter (!·.missesName name) =
      (exceptName name findings).map (Finding.toDiagnostic source) := by
  apply filter_map_toDiagnostic
  intro finding
  rw [Diagnostic.missesName_toDiagnostic, bne]

/-- A line `let name = 0` that is inserted outside the documentation blocks takes away the warnings
that the name is undeclared, wherever they are. Every other diagnostic stays, at the same columns,
and one line further down if it is below the inserted line, and none is added. -/
theorem declaration_clears_warnings (policy : Policy) (before : Symbol.Index)
    (uri text name : String) (boundary : Nat) (blocks : List Block) (hname : isName name.toList)
    (hle : boundary ≤ (Text.lines text).length) (hdivides : Divides (Text.lines text) blocks)
    (houtside : ∀ block ∈ blocks, ¬block.Encloses (Text.lines text) boundary)
    (hlimit : (findings (before.reindex uri text) uri text).length ≤ policy.limit) :
    (∃ other, Text.lines other =
      (Text.lines text).insertIdx boundary (declarationLine name)) ∧
    ∀ other, Text.lines other = (Text.lines text).insertIdx boundary (declarationLine name) →
      ∀ after : Symbol.Index, policy.diagnose (after.reindex uri other) uri other =
        ((policy.diagnose (before.reindex uri text) uri text).filter
          (!·.missesName name)).map (Diagnostic.moveDown boundary) := by
  constructor
  · apply exists_lines_eq
    · intro hnil
      have hinserted := getElem?_insertIdx_boundary hle (declarationLine name)
      rw [hnil] at hinserted
      contradiction
    · intro line hline
      rcases List.eq_or_mem_of_mem_insertIdx hline with rfl | hline
      · exact notMem_declarationLine hname (by decide) (by decide)
      · exact newline_notMem_of_mem_lines hline
  · intro other hother after
    have hfindings : findings (after.reindex uri other) uri other =
        (exceptName name (findings (before.reindex uri text) uri text)).map
          (Finding.moveDown boundary) := by
      rw [findings_reindex, findings_reindex,
        findingsFrom_declarationInserted hname hdivides houtside hle hother]
    have hfewer : (findings (after.reindex uri other) uri other).length ≤ policy.limit := by
      rw [hfindings, List.length_map]
      exact Nat.le_trans (List.length_filter_le _ _) hlimit
    rw [diagnose_eq_map hfewer, hfindings, diagnose_eq_map hlimit, filter_not_missesName,
      List.map_map, List.map_map]
    rfl

/-- The declaration comes right after a block, and of two undeclared names it declares one. -/
theorem declaration_clears_warnings_of_two :
    isName "x".toList ∧
      Divides (Text.lines "/** 1 */\nprint x y") [⟨0, 0⟩] ∧
      (∀ block ∈ [Block.mk 0 0], ¬block.Encloses (Text.lines "/** 1 */\nprint x y") 1) ∧
      (findings (Symbol.Index.empty.reindex "a.inmu" "/** 1 */\nprint x y") "a.inmu"
        "/** 1 */\nprint x y").length ≤ Policy.standard.limit ∧
      Policy.standard.diagnose
          (Symbol.Index.empty.reindex "a.inmu" "/** 1 */\nlet x = 0\nprint x y") "a.inmu"
          "/** 1 */\nlet x = 0\nprint x y" =
        [(Finding.undeclared 2 "print x ".toList ['y']).toDiagnostic "inmu"] := by
  have hlines : Text.lines "/** 1 */\nprint x y" = ["/** 1 */".toList, "print x y".toList] := by
    decide
  have hname : isName "x".toList := by decide
  have hdivides : Divides (Text.lines "/** 1 */\nprint x y") [⟨0, 0⟩] := by
    rw [hlines]
    refine ⟨?_, List.pairwise_singleton _ _, ?_⟩
    · rw [List.forall_mem_singleton]
      exact ⟨by decide, by decide, by decide, fun number _ hlt ↦ absurd hlt (Nat.not_lt_zero _),
        .inl (by decide)⟩
    · intro number hopens
      rcases number with _ | _ | number
      · exact ⟨⟨0, 0⟩, List.mem_singleton_self _, Nat.le_refl 0, Nat.le_refl 0⟩
      · exact absurd hopens (by decide)
      · simp at hopens
  have houtside : ∀ block ∈ [Block.mk 0 0],
      ¬block.Encloses (Text.lines "/** 1 */\nprint x y") 1 := by
    rw [List.forall_mem_singleton, hlines]
    rintro ⟨-, hgoesOn⟩
    exact absurd hgoesOn (by decide)
  have hlimit : (findings (Symbol.Index.empty.reindex "a.inmu" "/** 1 */\nprint x y") "a.inmu"
      "/** 1 */\nprint x y").length ≤ Policy.standard.limit := by decide +kernel
  obtain ⟨-, hcleared⟩ := declaration_clears_warnings Policy.standard Symbol.Index.empty "a.inmu"
    "/** 1 */\nprint x y" "x" 1 [⟨0, 0⟩] hname (by decide) hdivides houtside hlimit
  refine ⟨hname, hdivides, houtside, hlimit, ?_⟩
  rw [hcleared "/** 1 */\nlet x = 0\nprint x y" (by decide) Symbol.Index.empty]
  decide +kernel

end Diagnose

end ScriptSense
