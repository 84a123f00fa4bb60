import ScriptSense.Proofs.Text.Lines
import ScriptSense.Proofs.Workspace.Reports

/-!
# Line endings do not matter

All that a workspace reads from a text are its lines. Two runs whose texts differ in the line
endings keep the same declarations, and under each URI texts with the same lines; so they report the
same about each event, and give the same answers.
-/

namespace ScriptSense

open Text

section Reading

variable {text other : String}

theorem Symbol.scan_eq_of_lines_eq (h : lines text = lines other) (uri : String) :
    scan uri text = scan uri other := by
  rw [scan, h, scan]

theorem Diagnose.findings_eq_of_lines_eq (h : lines text = lines other) (index : Symbol.Index)
    (uri : String) : findings index uri text = findings index uri other := by
  rw [findings, h, findings]

theorem Layout.format_eq_of_lines_eq (h : lines text = lines other) (style : IndentStyle) :
    format text style = format other style := by
  rw [format, h, format]

end Reading

namespace Documents

/-- The entries are about the same document and have the same lines. -/
def SameLines (entry other : String × String) : Prop :=
  entry.1 = other.1 ∧ lines entry.2 = lines other.2

/-- The same documents are open in both, with the same lines. -/
def Alike (documents other : Documents) : Prop :=
  List.Forall₂ SameLines documents.entries other.entries

variable {documents other : Documents} {uri text otherText : String}

theorem forall₂_putInto {entries others : List (String × String)}
    (h : List.Forall₂ SameLines entries others) (htext : lines text = lines otherText) :
    List.Forall₂ SameLines (putInto uri text entries) (putInto uri otherText others) := by
  induction h with
  | nil => exact .cons ⟨rfl, htext⟩ .nil
  | @cons entry other rest others hentry hrest ih =>
    unfold putInto
    -- The entries have the same URI, so both sides go on in the same way.
    rw [← hentry.1]
    split
    · exact .cons ⟨rfl, htext⟩ (.cons hentry hrest)
    · split
      · exact .cons ⟨rfl, htext⟩ hrest
      · exact .cons hentry ih

theorem Alike.put (h : documents.Alike other) (uri : String)
    (htext : lines text = lines otherText) :
    (documents.put uri text).Alike (other.put uri otherText) :=
  forall₂_putInto h htext

theorem Alike.erase (h : documents.Alike other) (uri : String) :
    (documents.erase uri).Alike (other.erase uri) := by
  refine List.rel_filter ?_ h
  intro entry otherEntry hentry
  simp only [hentry.1]

/-- Under each URI there is a text in both or in neither, with the same lines. -/
theorem Alike.map_lines_get? (h : documents.Alike other) (uri : String) :
    (documents.get? uri).map lines = (other.get? uri).map lines := by
  unfold Alike at h
  unfold get?
  generalize documents.entries = entries at h ⊢
  generalize other.entries = others at h ⊢
  induction h with
  | nil => rfl
  | @cons entry other rest others hentry _ ih =>
    rw [List.find?_cons, List.find?_cons, ← hentry.1]
    split
    · exact congrArg some hentry.2
    · exact ih

theorem Alike.contains_eq (h : documents.Alike other) (uri : String) :
    documents.contains uri = other.contains uri := by
  have hsome := congrArg Option.isSome (h.map_lines_get? uri)
  rwa [Option.isSome_map, Option.isSome_map] at hsome

theorem Alike.line?_eq (h : documents.Alike other) (uri : String) (number : Nat) :
    documents.line? uri number = other.line? uri number := by
  have hline (documents : Documents) :
      documents.line? uri number = ((documents.get? uri).map lines).bind (·[number]?) := by
    rw [line?, Option.bind_map]
    rfl
  rw [hline, hline, h.map_lines_get? uri]

theorem Alike.target?_eq (h : documents.Alike other) (uri : String) (position : Position) :
    target? documents uri position = target? other uri position := by
  rw [target?, h.line?_eq, target?]

theorem Alike.flatMap_textReferences (h : documents.Alike other) (word : String) :
    documents.entries.flatMap (Cursor.textReferences word) =
      other.entries.flatMap (Cursor.textReferences word) := by
  unfold Alike at h
  generalize documents.entries = entries at h ⊢
  generalize other.entries = others at h ⊢
  induction h with
  | nil => rfl
  | @cons entry other rest others hentry _ ih =>
    rw [List.flatMap_cons, List.flatMap_cons, ih]
    rw [Cursor.textReferences, hentry.1, hentry.2, Cursor.textReferences]

end Documents

/-- The same happened to the same document, to texts that differ at most in their line endings. -/
structure Event.EndsAlike (event other : Event) : Prop where
  uri : event.uri = other.uri
  kind : event.kind = other.kind
  text : Text.EndsAlike event.text other.text

namespace Workspace

/-- The workspaces differ at most in the line endings of their texts. -/
structure Alike (workspace other : Workspace) : Prop where
  settings : workspace.settings = other.settings
  index : workspace.index = other.index
  documents : workspace.documents.Alike other.documents

/-- Every question has the same answer in both workspaces. -/
structure SameAnswers (workspace other : Workspace) : Prop where
  hover : ∀ uri position, workspace.hover uri position = other.hover uri position
  definitions : ∀ uri position, workspace.definitions uri position = other.definitions uri position
  references : ∀ uri position, workspace.references uri position = other.references uri position
  outline : ∀ uri, workspace.outline uri = other.outline uri
  completions : ∀ uri, workspace.completions uri = other.completions uri
  format : ∀ uri style, workspace.format uri style = other.format uri style
  formatBySettings : ∀ uri, workspace.formatBySettings uri = other.formatBySettings uri

variable {workspace other : Workspace}

theorem alike_empty (settings : Settings) : (empty settings).Alike (empty settings) :=
  ⟨rfl, rfl, .nil⟩

namespace Alike

theorem update (h : workspace.Alike other) (uri : String) {text otherText : String}
    (htext : lines text = lines otherText) :
    (workspace.update uri text).1.Alike (other.update uri otherText).1 ∧
      (workspace.update uri text).2 = (other.update uri otherText).2 := by
  have hindex : workspace.index.reindex uri text = other.index.reindex uri otherText := by
    rw [Symbol.Index.reindex, Symbol.scan_eq_of_lines_eq htext, h.index, Symbol.Index.reindex]
  refine ⟨⟨h.settings, hindex, h.documents.put uri htext⟩, ?_⟩
  simp only [Workspace.update, Diagnose.Policy.diagnose, hindex, h.settings,
    Diagnose.findings_eq_of_lines_eq htext]

theorem close (h : workspace.Alike other) (uri : String) :
    (workspace.close uri).1.Alike (other.close uri).1 ∧
      (workspace.close uri).2 = (other.close uri).2 := by
  refine ⟨⟨h.settings, ?_, h.documents.erase uri⟩, rfl⟩
  exact congrArg (·.remove uri) h.index

theorem apply (h : workspace.Alike other) {event otherEvent : Event}
    (hevent : event.EndsAlike otherEvent) :
    (workspace.apply event).1.Alike (other.apply otherEvent).1 ∧
      (workspace.apply event).2 = (other.apply otherEvent).2 := by
  unfold Workspace.apply
  rw [← hevent.kind, ← hevent.uri]
  cases event.kind with
  | opened => exact h.update event.uri hevent.text.lines_eq
  | changed => exact h.update event.uri hevent.text.lines_eq
  | closed => exact h.close event.uri

theorem run (h : workspace.Alike other) {events others : List Event}
    (hevents : List.Forall₂ Event.EndsAlike events others) :
    (workspace.run events).Alike (other.run others) ∧
      workspace.reports events = other.reports others := by
  induction hevents generalizing workspace other with
  | nil => exact ⟨h, rfl⟩
  | @cons event otherEvent rest others hevent _ ih =>
    obtain ⟨hnext, hreport⟩ := h.apply hevent
    obtain ⟨hrun, hreports⟩ := ih hnext
    refine ⟨hrun, ?_⟩
    rw [reports, reports, hreport, hreports]

theorem format_eq (h : workspace.Alike other) (uri : String) (style : IndentStyle) :
    workspace.format uri style = other.format uri style := by
  have hlines := h.documents.map_lines_get? uri
  unfold Workspace.format
  cases htext : workspace.documents.get? uri with
  | none =>
    rw [htext, Option.map_none, eq_comm, Option.map_eq_none_iff] at hlines
    rw [hlines]
  | some text =>
    rw [htext, Option.map_some, eq_comm, Option.map_eq_some_iff] at hlines
    obtain ⟨otherText, hother, heq⟩ := hlines
    rw [hother, Option.map_some, Option.map_some, Layout.format_eq_of_lines_eq heq]

theorem sameAnswers (h : workspace.Alike other) : workspace.SameAnswers other where
  hover uri position := by
    simp only [Workspace.hover, Cursor.hover, h.documents.target?_eq, h.index]
  definitions uri position := by
    simp only [Workspace.definitions, Cursor.definitions, h.documents.target?_eq, h.index]
  references uri position := by
    simp only [Workspace.references, Cursor.references, h.documents.target?_eq,
      h.documents.flatMap_textReferences]
  outline uri := by
    rw [Workspace.outline, h.index, Workspace.outline]
  completions uri := by
    simp only [Workspace.completions, ScriptSense.completions, h.documents.contains_eq, h.index]
  format := h.format_eq
  formatBySettings uri := by
    rw [Workspace.formatBySettings, h.settings, h.format_eq, Workspace.formatBySettings]

end Alike

/-- Two runs whose events differ at most in the line endings of the texts give the same reports, and
afterwards the same answers. -/
theorem endings_do_not_matter (settings : Settings) {events others : List Event}
    (h : List.Forall₂ Event.EndsAlike events others) :
    (empty settings).reports events = (empty settings).reports others ∧
      ((empty settings).run events).SameAnswers ((empty settings).run others) := by
  obtain ⟨halike, hreports⟩ := (alike_empty settings).run h
  exact ⟨hreports, halike.sameAnswers⟩

/-- The first document gets one more ending with a carriage return, the second has one already. -/
theorem endings_do_not_matter_of_mixed :
    List.Forall₂ Event.EndsAlike
        [⟨"a.inmu", "let x = 1\nprint x\n", .opened⟩, ⟨"b.inmu", "print y\r\n", .changed⟩]
        [⟨"a.inmu", "let x = 1\r\nprint x\n", .opened⟩, ⟨"b.inmu", "print y\r\n", .changed⟩] ∧
      (empty Settings.standard).reports
          [⟨"a.inmu", "let x = 1\nprint x\n", .opened⟩, ⟨"b.inmu", "print y\r\n", .changed⟩] =
        (empty Settings.standard).reports
          [⟨"a.inmu", "let x = 1\r\nprint x\n", .opened⟩, ⟨"b.inmu", "print y\r\n", .changed⟩] ∧
      SameAnswers
        ((empty Settings.standard).run
          [⟨"a.inmu", "let x = 1\nprint x\n", .opened⟩, ⟨"b.inmu", "print y\r\n", .changed⟩])
        ((empty Settings.standard).run
          [⟨"a.inmu", "let x = 1\r\nprint x\n", .opened⟩,
            ⟨"b.inmu", "print y\r\n", .changed⟩]) := by
  have hadded : ReturnsAdded "let x = 1\nprint x\n".toList "let x = 1\r\nprint x\n".toList := by
    repeat constructor
  have hevents : List.Forall₂ Event.EndsAlike
      [⟨"a.inmu", "let x = 1\nprint x\n", .opened⟩, ⟨"b.inmu", "print y\r\n", .changed⟩]
      [⟨"a.inmu", "let x = 1\r\nprint x\n", .opened⟩, ⟨"b.inmu", "print y\r\n", .changed⟩] :=
    .cons ⟨rfl, rfl, .inr ⟨by decide, hadded⟩⟩ (.cons ⟨rfl, rfl, .inl rfl⟩ .nil)
  exact ⟨hevents, endings_do_not_matter Settings.standard hevents⟩

end Workspace

end ScriptSense
