import Mathlib.Data.List.Forall2
import ScriptSense.Proofs.Diagnostic.Indentation
import ScriptSense.Proofs.Document.Layout
import ScriptSense.Proofs.Symbol.Indentation
import ScriptSense.Proofs.Workspace.Reports

/-!
# Indentation does not change what a text means

Two texts whose lines differ in their blank margins only have the same declarations and the same
diagnostics, and every place in them moves with the indentation of its line. Formatting a text
changes nothing but blank margins.
-/

namespace ScriptSense

open Text

/-- Texts with as many lines, which are equal once they are trimmed. -/
def Reindented (text other : String) : Prop :=
  (lines text).map trim = (lines other).map trim

/-- The same declaration in two texts with the given lines, at the column that the indentation of
its line asks for. -/
structure Occurrence.Moved (old new : List (List Char)) (before after : Occurrence) : Prop where
  name : after.name = before.name
  kind : after.kind = before.kind
  uri : after.uri = before.uri
  line : after.line = before.line
  doc : after.doc = before.doc
  column : after.column + indentAt old before.line = before.column + indentAt new before.line

/-- The same diagnostic in two texts with the given lines. What it says tells the problem, and so
whether it stands at the whole line or moves with the indentation. -/
structure Diagnostic.Moved (old new : List (List Char)) (before after : Diagnostic) : Prop where
  severity : after.severity = before.severity
  message : after.message = before.message
  source : after.source = before.source
  startLine : after.range.start.line = before.range.start.line
  stopLine : after.range.stop.line = before.range.stop.line
  told : ∃ problem : Problem, before.message = problem.message
  wholeLine : ∀ problem : Problem, problem.fillsLine → before.message = problem.message →
    before.range = Range.wholeLine before.range.start.line (old.getD before.range.start.line []) ∧
      after.range = Range.wholeLine before.range.start.line (new.getD before.range.start.line [])
  startColumn : ∀ problem : Problem, ¬problem.fillsLine → before.message = problem.message →
    after.range.start.column + indentAt old before.range.start.line =
      before.range.start.column + indentAt new before.range.start.line
  stopColumn : ∀ problem : Problem, ¬problem.fillsLine → before.message = problem.message →
    after.range.stop.column + indentAt old before.range.start.line =
      before.range.stop.column + indentAt new before.range.start.line

namespace Symbol

theorem scan_eq_map_indented (uri text : String) :
    scan uri text =
      (scanFrom uri 0 none ((lines text).map trim)).map (indented (lines text)) :=
  scanFrom_eq_map_indented List.drop_zero uri none

theorem moved_indented (old new : List (List Char)) (occurrence : Occurrence) :
    Occurrence.Moved old new (indented old occurrence) (indented new occurrence) where
  name := rfl
  kind := rfl
  uri := rfl
  line := rfl
  doc := rfl
  column := by
    simp only [indented]
    omega

theorem moved_scan {text other : String} (h : Reindented text other) (uri : String) :
    List.Forall₂ (Occurrence.Moved (lines text) (lines other)) (scan uri text)
      (scan uri other) := by
  rw [scan_eq_map_indented, scan_eq_map_indented, ← h, List.forall₂_map_left_iff,
    List.forall₂_map_right_iff, List.forall₂_same]
  intro occurrence _
  exact moved_indented (lines text) (lines other) occurrence

theorem declaredBy_eq_of_reindented {text other : String} (h : Reindented text other)
    (uri : String) : declaredBy uri text = declaredBy uri other := by
  funext name
  rw [declaredBy, declaredBy, scan_eq_map_indented, scan_eq_map_indented, ← h, List.any_map,
    List.any_map]
  rfl

end Symbol

/-- Problems that are told in the same words fill their lines or do not. -/
theorem Problem.fillsLine_eq_of_message_eq {problem other : Problem}
    (h : problem.message = other.message) : problem.fillsLine = other.fillsLine := by
  have hhead := congrArg (·.toList.head?) h
  cases problem <;> cases other <;> first | rfl | simp [message] at hhead

namespace Diagnose

theorem moved_indented (old new : List (List Char)) (source : String) (finding : Finding) :
    Diagnostic.Moved old new ((indented old finding).toDiagnostic source)
      ((indented new finding).toDiagnostic source) := by
  obtain ⟨range, problem⟩ := finding
  have hsame {other : Problem} (hmessage : problem.message = other.message) :
      problem.fillsLine = other.fillsLine := Problem.fillsLine_eq_of_message_eq hmessage
  cases hfills : problem.fillsLine with
  | true =>
    simp only [indented, hfills, if_true]
    exact {
      severity := rfl
      message := rfl
      source := rfl
      startLine := rfl
      stopLine := rfl
      told := ⟨problem, rfl⟩
      wholeLine := fun _ _ _ ↦ ⟨rfl, rfl⟩
      startColumn := fun _ hother hmessage ↦ absurd (hsame hmessage ▸ hfills) hother
      stopColumn := fun _ hother hmessage ↦ absurd (hsame hmessage ▸ hfills) hother }
  | false =>
    simp only [indented, hfills, Bool.false_eq_true, if_false]
    exact {
      severity := rfl
      message := rfl
      source := rfl
      startLine := rfl
      stopLine := rfl
      told := ⟨problem, rfl⟩
      wholeLine := fun _ hother hmessage ↦ by
        rw [← hsame hmessage, hfills] at hother
        contradiction
      startColumn := fun _ _ _ ↦ Nat.add_right_comm _ _ _
      stopColumn := fun _ _ _ ↦ Nat.add_right_comm _ _ _ }

/-- The diagnostics of a text, by way of what the rules find in its trimmed lines. -/
theorem diagnose_eq_map_indented (policy : Policy) (index : Symbol.Index) (uri text : String) :
    policy.diagnose (index.reindex uri text) uri text =
      ((findingsFrom (Symbol.declaredBy uri text) 0 ((lines text).map trim)).take policy.limit).map
        fun finding ↦ (indented (lines text) finding).toDiagnostic policy.source := by
  have hfindings := findingsFrom_eq_map_indented (lines text).drop_zero (Symbol.declaredBy uri text)
  calc policy.diagnose (index.reindex uri text) uri text
    _ = ((findingsFrom (Symbol.declaredBy uri text) 0 (lines text)).take policy.limit).map
          (Finding.toDiagnostic policy.source) := diagnose_reindex policy index uri text
    _ = _ := by
      rw [hfindings, ← List.map_take, List.map_map]
      rfl

theorem moved_diagnose {text other : String} (h : Reindented text other) (policy : Policy)
    (index index' : Symbol.Index) (uri : String) :
    List.Forall₂ (Diagnostic.Moved (lines text) (lines other))
      (policy.diagnose (index.reindex uri text) uri text)
      (policy.diagnose (index'.reindex uri other) uri other) := by
  rw [diagnose_eq_map_indented, diagnose_eq_map_indented, ← Symbol.declaredBy_eq_of_reindented h,
    ← h, List.forall₂_map_left_iff, List.forall₂_map_right_iff, List.forall₂_same]
  intro finding _
  exact moved_indented (lines text) (lines other) policy.source finding

end Diagnose

/-- Reindentation, and formatting in particular, keeps the declarations and the diagnostics of a
text. -/
theorem reindentation_keeps_meaning :
    (∀ text other, Reindented text other →
      (∀ uri, List.Forall₂ (Occurrence.Moved (lines text) (lines other))
        (Symbol.scan uri text) (Symbol.scan uri other)) ∧
      ∀ (policy : Diagnose.Policy) (index index' : Symbol.Index) (uri : String),
        List.Forall₂ (Diagnostic.Moved (lines text) (lines other))
          (policy.diagnose (index.reindex uri text) uri text)
          (policy.diagnose (index'.reindex uri other) uri other)) ∧
    ∀ text style, Reindented text (Layout.format text style).newText := by
  refine ⟨?_, ?_⟩
  · intro text other h
    exact ⟨Symbol.moved_scan h, Diagnose.moved_diagnose h⟩
  · intro text style
    exact (Layout.map_trim_lines_format text style).symm

theorem reindentation_keeps_meaning_of_tabbed :
    Reindented "let x = (1\nprint y" "\tlet x = (1 \n  print y" ∧
      List.Forall₂
        (Occurrence.Moved (lines "let x = (1\nprint y") (lines "\tlet x = (1 \n  print y"))
        (Symbol.scan "a.inmu" "let x = (1\nprint y")
        (Symbol.scan "a.inmu" "\tlet x = (1 \n  print y") ∧
      List.Forall₂
        (Diagnostic.Moved (lines "let x = (1\nprint y") (lines "\tlet x = (1 \n  print y"))
        (Diagnose.Policy.standard.diagnose
          (Symbol.Index.empty.reindex "a.inmu" "let x = (1\nprint y") "a.inmu"
          "let x = (1\nprint y")
        (Diagnose.Policy.standard.diagnose
          (Symbol.Index.empty.reindex "a.inmu" "\tlet x = (1 \n  print y") "a.inmu"
          "\tlet x = (1 \n  print y") :=
  have h : Reindented "let x = (1\nprint y" "\tlet x = (1 \n  print y" := by
    unfold Reindented
    decide
  ⟨h, (reindentation_keeps_meaning.1 _ _ h).1 _, (reindentation_keeps_meaning.1 _ _ h).2 _ _ _ _⟩

end ScriptSense
