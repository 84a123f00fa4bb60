import ScriptSense.Proofs.Cursor.References
import ScriptSense.Proofs.Diagnostic.Place
import ScriptSense.Proofs.Symbol.Column
import ScriptSense.Proofs.Workspace.Reports

/-!
# Ranges cover what they name

Every range that a workspace hands out lies in a document that is open, on one line of the text that
it has now, and covers the word, the name or the problem that it is handed out for. Words are read
from the open texts; names come from the index, which holds the declarations of these texts only;
and a report is about the text that it was made for.
-/

namespace ScriptSense

open Text

/-- The diagnostic tells a problem, and points at the subject of this problem in the text. -/
structure Diagnostic.Points (text : String) (diagnostic : Diagnostic) : Prop where
  told : ∃ problem : Problem, diagnostic.message = problem.message
  covers : ∀ problem : Problem, diagnostic.message = problem.message →
    ∃ line, (lines text)[diagnostic.range.start.line]? = some line ∧
      diagnostic.range.Covers text (problem.subject line)

theorem Finding.Marks.points {text : String} {line : List Char} {finding : Finding}
    (h : finding.Marks text line) (source : String) :
    (finding.toDiagnostic source).Points text where
  told := ⟨finding.problem, rfl⟩
  covers problem hmessage := by
    rw [← Problem.message_injective hmessage]
    exact ⟨line, h.line_eq, h.covers⟩

namespace Workspace

/-- The location is in an open document, and `covered` stands there. -/
def Reads (workspace : Workspace) (location : Location) (covered : List Char) : Prop :=
  ∃ text, workspace.documents.get? location.uri = some text ∧ location.range.Covers text covered

/-- Every range in an answer of the workspace covers the word or the name that it is for. -/
structure Accurate (workspace : Workspace) : Prop where
  definitions : ∀ uri position, ∀ location ∈ workspace.definitions uri position,
    ∃ target, target? workspace.documents uri position = some target ∧
      workspace.Reads location target.word.toList
  references : ∀ uri position, ∀ location ∈ workspace.references uri position,
    ∃ target, target? workspace.documents uri position = some target ∧
      workspace.Reads location target.word.toList
  outline : ∀ uri, ∀ item ∈ workspace.outline uri,
    item.location.uri = uri ∧ workspace.Reads item.location item.name.toList
  hover : ∀ uri position hover, workspace.hover uri position = some hover →
    ∃ target range, target? workspace.documents uri position = some target ∧
      hover.range = some range ∧ workspace.Reads ⟨uri, range⟩ target.word.toList

variable {workspace : Workspace} {settings : Settings} {documents : List (String × String)}

theorem reads_of_isUse {word : String} {location : Location}
    (h : Cursor.IsUse workspace.documents word location) :
    workspace.Reads location word.toList := by
  obtain ⟨number, before, after, hstands, hrange⟩ := h
  obtain ⟨text, htext, hline⟩ := Option.bind_eq_some_iff.mp hstands.line
  exact ⟨text, htext, hrange ▸ Range.covers_onLine hline⟩

theorem Tracks.reads_of_mem_declarations (h : Tracks workspace settings documents)
    {occurrence : Occurrence} (hmem : occurrence ∈ declarations documents) :
    workspace.Reads occurrence.location occurrence.name.toList := by
  obtain ⟨document, hdocument, hscan⟩ := (mem_declarations documents occurrence).mp hmem
  have huri : occurrence.location.uri = document.1 := Symbol.uri_of_mem_scan hscan
  refine ⟨document.2, ?_, Symbol.covers_of_mem_scan hscan⟩
  rwa [huri, h.get?_eq_some_iff]

theorem Tracks.accurate (h : Tracks workspace settings documents) : workspace.Accurate where
  definitions uri position location hlocation := by
    unfold Workspace.definitions Cursor.definitions at hlocation
    split at hlocation
    · exact absurd hlocation List.not_mem_nil
    · rename_i target htarget
      obtain ⟨occurrence, hoccurrence, rfl⟩ := List.mem_map.mp hlocation
      rw [h.groups.lookup_eq, List.mem_filter, beq_iff_eq] at hoccurrence
      obtain ⟨hmem, hname⟩ := hoccurrence
      exact ⟨target, htarget, hname ▸ h.reads_of_mem_declarations hmem⟩
  references uri position location hlocation := by
    cases htarget : target? workspace.documents uri position with
    | none => simp [Workspace.references, Cursor.references, htarget] at hlocation
    | some target =>
      rw [Workspace.references, Cursor.references_eq_of_target htarget,
        Cursor.mem_places_iff] at hlocation
      exact ⟨target, rfl, reads_of_isUse hlocation⟩
  outline uri item hitem := by
    obtain ⟨occurrence, hoccurrence, rfl⟩ := List.mem_map.mp hitem
    rw [(h.groups.isOutline_document uri).perm.mem_iff, List.mem_filter,
      beq_iff_eq] at hoccurrence
    exact ⟨hoccurrence.2, h.reads_of_mem_declarations hoccurrence.1⟩
  hover uri position hover hhover := by
    unfold Workspace.hover Cursor.hover at hhover
    split at hhover
    · contradiction
    · rename_i target htarget
      obtain ⟨contents, -, rfl⟩ := Option.map_eq_some_iff.mp hhover
      exact ⟨target, target.range, htarget, rfl, reads_of_isUse (Cursor.isUse_of_target htarget)⟩

theorem points_of_mem_update (workspace : Workspace) {uri text : String} {diagnostic : Diagnostic}
    (h : diagnostic ∈ (workspace.update uri text).2.diagnostics) : diagnostic.Points text := by
  have hdiagnostics : (workspace.update uri text).2.diagnostics =
      workspace.settings.policy.diagnose (workspace.index.reindex uri text) uri text := rfl
  rw [hdiagnostics, Diagnose.diagnose_reindex] at h
  obtain ⟨finding, hfinding, rfl⟩ := List.mem_map.mp h
  obtain ⟨line, hmarks⟩ := Diagnose.marks_of_mem_findingsFrom (List.mem_of_mem_take hfinding)
  exact hmarks.points workspace.settings.policy.source

/-- After any events, every range in an answer covers what it is for in a document that is open, and
so does every range in the last report about such a document. Right after a document is opened or
changed, it has the text that it is reported on. -/
theorem ranges_cover_subjects (settings : Settings) (events : List Event) :
    Accurate ((empty settings).run events) ∧
    (∀ uri text, ((empty settings).run events).documents.get? uri = some text →
      ∃ report, (empty settings).lastReport? events uri = some report ∧ report.uri = uri ∧
        ∀ diagnostic ∈ report.diagnostics, diagnostic.Points text) ∧
    ∀ event : Event, event.kind ≠ .closed →
      (((empty settings).run events).apply event).2.uri = event.uri ∧
      (((empty settings).run events).apply event).1.documents.get? event.uri = some event.text ∧
      ∀ diagnostic ∈ (((empty settings).run events).apply event).2.diagnostics,
        diagnostic.Points event.text := by
  refine ⟨(tracks_run settings events).accurate, ?_, ?_⟩
  · intro uri text htext
    refine ⟨((empty settings).update uri text).2, lastReport?_eq_of_get? htext, rfl, ?_⟩
    intro diagnostic hdiagnostic
    exact points_of_mem_update (empty settings) hdiagnostic
  · intro event hkind
    rw [apply_of_ne_closed _ hkind]
    refine ⟨rfl, ?_, fun diagnostic hdiagnostic ↦ points_of_mem_update _ hdiagnostic⟩
    exact Documents.get?_put_self ((empty settings).run events).documents event.uri event.text

/-- A name that is not declared, in a document that was opened and in one that is changed now. -/
theorem ranges_cover_subjects_of_undeclared :
    ((empty Settings.standard).run [⟨"a.inmu", "print cuont", .opened⟩]).documents.get? "a.inmu" =
        some "print cuont" ∧
      ChangeKind.changed ≠ .closed ∧
      (∃ report, (empty Settings.standard).lastReport? [⟨"a.inmu", "print cuont", .opened⟩]
          "a.inmu" = some report ∧ report.uri = "a.inmu" ∧
        ∀ diagnostic ∈ report.diagnostics, diagnostic.Points "print cuont") ∧
      ∀ diagnostic ∈ (((empty Settings.standard).run [⟨"a.inmu", "print cuont", .opened⟩]).apply
        ⟨"a.inmu", "print count", .changed⟩).2.diagnostics, diagnostic.Points "print count" := by
  have htext : ((empty Settings.standard).run [⟨"a.inmu", "print cuont", .opened⟩]).documents.get?
      "a.inmu" = some "print cuont" := by decide
  have hkind : ChangeKind.changed ≠ .closed := by decide
  obtain ⟨-, hreport, hevent⟩ := ranges_cover_subjects Settings.standard
    [⟨"a.inmu", "print cuont", .opened⟩]
  exact ⟨htext, hkind, hreport _ _ htext, (hevent ⟨"a.inmu", "print count", .changed⟩ hkind).2.2⟩

end Workspace

end ScriptSense
