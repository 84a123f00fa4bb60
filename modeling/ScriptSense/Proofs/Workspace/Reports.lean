import ScriptSense.Proofs.Symbol.Grouping
import ScriptSense.Proofs.Workspace.Replay
import ScriptSense.Workspace

/-!
# The reports of a run

A report is computed from the text of its event, from the settings, and from the names that the
index holds as declared in the document. The document is indexed first, so these names come from the
same text. Neither other documents nor earlier texts can then change a report.

Every event of a run is reported on. The last report about a document is the report of the last
event that names it, and since a report does not depend on what came before, it is the one that a
new workspace would give.
-/

namespace ScriptSense

namespace Diagnose

theorem findings_reindex (index : Symbol.Index) (uri text : String) :
    findings (index.reindex uri text) uri text =
      findingsFrom (Symbol.declaredBy uri text) 0 (Text.lines text) := by
  rw [findings]
  congr 1
  funext name
  exact index.declares_reindex uri text name

theorem diagnose_reindex (policy : Policy) (index : Symbol.Index) (uri text : String) :
    policy.diagnose (index.reindex uri text) uri text =
      ((findingsFrom (Symbol.declaredBy uri text) 0 (Text.lines text)).take policy.limit).map
        (Finding.toDiagnostic policy.source) := by
  rw [Policy.diagnose, findings_reindex]

end Diagnose

namespace Workspace

theorem settings_apply (workspace : Workspace) (event : Event) :
    (workspace.apply event).1.settings = workspace.settings := by
  unfold apply
  split <;> rfl

theorem settings_run (workspace : Workspace) (events : List Event) :
    (workspace.run events).settings = workspace.settings := by
  induction events generalizing workspace with
  | nil => rfl
  | cons event rest ih =>
    rw [← settings_apply workspace event]
    exact ih (workspace.apply event).1

/-- Workspaces with the same settings report the same about an event. -/
theorem report_eq_of_settings_eq {workspace other : Workspace}
    (h : workspace.settings = other.settings) (event : Event) :
    (workspace.apply event).2 = (other.apply event).2 := by
  have hupdate (uri text : String) :
      (workspace.update uri text).2 = (other.update uri text).2 := by
    simp only [update, Diagnose.diagnose_reindex, h]
  unfold apply
  split
  · exact hupdate event.uri event.text
  · exact hupdate event.uri event.text
  · rfl

/-- The reports about the events, in their order. -/
def reports (workspace : Workspace) : List Event → List Report
  | [] => []
  | event :: rest => (workspace.apply event).2 :: reports (workspace.apply event).1 rest

/-- The last of the reports that is about the document. -/
def lastReport? (workspace : Workspace) (events : List Event) (uri : String) : Option Report :=
  (workspace.reports events).reverse.find? (·.uri == uri)

theorem uri_apply (workspace : Workspace) (event : Event) :
    (workspace.apply event).2.uri = event.uri := by
  unfold apply
  split <;> rfl

theorem apply_of_ne_closed (workspace : Workspace) {event : Event} (h : event.kind ≠ .closed) :
    workspace.apply event = workspace.update event.uri event.text := by
  unfold apply
  split
  · rfl
  · rfl
  · rename_i hclosed
    exact absurd hclosed h

theorem reports_append_singleton (workspace : Workspace) (events : List Event) (event : Event) :
    workspace.reports (events ++ [event]) =
      workspace.reports events ++ [((workspace.run events).apply event).2] := by
  induction events generalizing workspace with
  | nil => rfl
  | cons first rest ih =>
    rw [List.cons_append, reports, ih, reports, List.cons_append]
    rfl

theorem lastReport?_append_singleton (workspace : Workspace) (events : List Event) (event : Event)
    (uri : String) : workspace.lastReport? (events ++ [event]) uri =
      if event.uri = uri then some ((workspace.run events).apply event).2
      else workspace.lastReport? events uri := by
  rw [lastReport?, reports_append_singleton, List.reverse_append, List.reverse_singleton,
    List.singleton_append, List.find?_cons, uri_apply]
  by_cases h : event.uri = uri
  · rw [beq_iff_eq.mpr h, if_pos h]
  · rw [beq_false_of_ne h, if_neg h, lastReport?]

theorem lastReport?_eq_map (settings : Settings) (events : List Event) (uri : String) :
    (empty settings).lastReport? events uri =
      (lastEvent? events uri).map fun event ↦ ((empty settings).apply event).2 := by
  induction events using List.reverseRecOn with
  | nil => rfl
  | append_singleton events event ih =>
    rw [lastReport?_append_singleton, lastEvent?_append_singleton]
    split
    · rw [Option.map_some, report_eq_of_settings_eq (settings_run (empty settings) events) event]
    · exact ih

theorem get?_run_eq_some_iff (settings : Settings) (events : List Event) (uri text : String) :
    ((empty settings).run events).documents.get? uri = some text ↔ (uri, text) ∈ live events :=
  (tracks_run settings events).get?_eq_some_iff uri text

/-- The last report about an open document is about its text. -/
theorem lastReport?_eq_of_get? {settings : Settings} {events : List Event} {uri text : String}
    (h : ((empty settings).run events).documents.get? uri = some text) :
    (empty settings).lastReport? events uri = some ((empty settings).update uri text).2 := by
  rw [get?_run_eq_some_iff, mem_live] at h
  obtain ⟨event, hlast, hkind, rfl⟩ := h
  have huri : event.uri = uri := by simpa using List.find?_some hlast
  rw [lastReport?_eq_map, hlast, Option.map_some, ← huri, apply_of_ne_closed _ hkind]

end Workspace

end ScriptSense
