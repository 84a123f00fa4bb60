import ScriptSense.Proofs.Document.Store
import ScriptSense.Proofs.Symbol.Answers
import ScriptSense.Proofs.Symbol.Scan
import ScriptSense.Proofs.Workspace.Live

/-!
# A workspace is the replay of its live documents

Whatever events have led to a workspace, it holds the live documents and the declarations found in
them, and nothing else. The invariant ties the texts to the list of live documents and the index to
the declarations of these documents, one document after the other; an event changes both sides in
the same way.
-/

namespace ScriptSense.Workspace

open ScriptSense.Symbol

/-- The declarations of the documents, one document after the other. -/
def declarations (documents : List (String × String)) : List Occurrence :=
  documents.flatMap fun document ↦ scan document.1 document.2

theorem declarations_append_singleton (documents : List (String × String)) (uri text : String) :
    declarations (documents ++ [(uri, text)]) = declarations documents ++ scan uri text := by
  simp [declarations]

theorem mem_declarations (documents : List (String × String)) (occurrence : Occurrence) :
    occurrence ∈ declarations documents ↔
      ∃ document ∈ documents, occurrence ∈ scan document.1 document.2 :=
  List.mem_flatMap

theorem filter_declarations (p : String → Bool) (documents : List (String × String)) :
    (declarations documents).filter (p ·.uri) = declarations (documents.filter (p ·.1)) := by
  induction documents with
  | nil => rfl
  | cons document rest ih =>
    have hscan : (scan document.1 document.2).filter (p ·.uri) =
        if p document.1 then scan document.1 document.2 else [] := by
      split
      · rename_i hp
        rw [List.filter_eq_self]
        intro occurrence hmem
        rwa [uri_of_mem_scan hmem]
      · rename_i hp
        rw [List.filter_eq_nil_iff]
        intro occurrence hmem
        rwa [uri_of_mem_scan hmem]
    simp only [declarations, List.flatMap_cons, List.filter_append, List.filter_cons, hscan] at ih ⊢
    rw [ih]
    split <;> simp

theorem filter_uri_eq {documents : List (String × String)}
    (nodup : (documents.map Prod.fst).Nodup) {uri text : String} (h : (uri, text) ∈ documents) :
    documents.filter (·.1 == uri) = [(uri, text)] := by
  have hunique (document : String × String) (hmem : document ∈ documents) :
      (document.1 == uri) = (document == (uri, text)) := by
    rw [Bool.eq_iff_iff, beq_iff_eq, beq_iff_eq]
    constructor
    · intro huri
      exact List.inj_on_of_nodup_map nodup hmem h huri
    · intro heq
      rw [heq]
  rw [List.filter_congr hunique, List.filter_beq,
    List.count_eq_one_of_mem (List.Nodup.of_map Prod.fst nodup) h, List.replicate_one]

/-- The workspace holds the texts of the documents and their declarations. -/
structure Tracks (workspace : Workspace) (settings : Settings)
    (documents : List (String × String)) : Prop where
  settings_eq : workspace.settings = settings
  mem_entries : ∀ entry, entry ∈ workspace.documents.entries ↔ entry ∈ documents
  groups : Groups workspace.index (declarations documents)

variable {workspace other : Workspace} {settings : Settings} {documents : List (String × String)}

theorem tracks_empty (settings : Settings) : Tracks (empty settings) settings [] where
  settings_eq := rfl
  mem_entries := by simp [empty, Documents.empty]
  groups := Groups.empty

theorem Tracks.update (h : Tracks workspace settings documents) (uri text : String) :
    Tracks (workspace.update uri text).1 settings
      (documents.filter (·.1 != uri) ++ [(uri, text)]) where
  settings_eq := h.settings_eq
  mem_entries entry := by
    refine (Documents.mem_entries_put workspace.documents uri text entry).trans ?_
    rw [h.mem_entries, List.mem_append, List.mem_filter, List.mem_singleton, or_comm]
    simp
  groups := by
    have hgroups := h.groups.reindex uri text
    rw [filter_declarations (· != uri)] at hgroups
    rwa [declarations_append_singleton]

theorem Tracks.close (h : Tracks workspace settings documents) (uri : String) :
    Tracks (workspace.close uri).1 settings (documents.filter (·.1 != uri)) where
  settings_eq := h.settings_eq
  mem_entries entry := by
    refine (Documents.mem_entries_erase workspace.documents uri entry).trans ?_
    rw [h.mem_entries, List.mem_filter]
    simp
  groups := by
    have hgroups := h.groups.remove uri
    rwa [filter_declarations (· != uri)] at hgroups

theorem run_append_singleton (workspace : Workspace) (events : List Event) (event : Event) :
    workspace.run (events ++ [event]) = ((workspace.run events).apply event).1 := by
  simp [run]

theorem tracks_run (settings : Settings) (events : List Event) :
    Tracks ((empty settings).run events) settings (live events) := by
  induction events using List.reverseRecOn with
  | nil => exact tracks_empty settings
  | append_singleton events event ih =>
    rw [run_append_singleton, apply]
    split
    · rename_i hopened
      rw [live_append_text events (by simp [hopened])]
      exact ih.update event.uri event.text
    · rename_i hchanged
      rw [live_append_text events (by simp [hchanged])]
      exact ih.update event.uri event.text
    · rename_i hclosed
      rw [live_append_closed events hclosed]
      exact ih.close event.uri

/-- All that the workspace answers about texts and declarations comes from the documents. -/
structure Shows (workspace : Workspace) (documents : List (String × String)) : Prop where
  text : ∀ uri text, workspace.documents.get? uri = some text ↔ (uri, text) ∈ documents
  lookup : ∀ name, workspace.index.lookup name =
    documents.flatMap fun document ↦ (scan document.1 document.2).filter (·.name == name)
  lines : ∀ uri text, (scan uri text).Pairwise fun a b ↦ a.line < b.line
  names_nodup : workspace.index.names.Nodup
  mem_names : ∀ name, name ∈ workspace.index.names ↔
    ∃ document ∈ documents, ∃ occurrence ∈ scan document.1 document.2, occurrence.name = name
  occurrences_ne_nil : ∀ entry ∈ workspace.index.entries, entry.occurrences ≠ []
  declares : ∀ name uri, workspace.index.declares name uri ↔
    ∃ text, (uri, text) ∈ documents ∧ ∃ occurrence ∈ scan uri text, occurrence.name = name
  outline : ∀ uri text, (uri, text) ∈ documents → workspace.index.document uri = scan uri text
  no_outline : ∀ uri, uri ∉ documents.map Prod.fst → workspace.index.document uri = []
  size : workspace.index.size = ((declarations documents).map Occurrence.name).dedup.length
  occurrenceCount : workspace.index.occurrenceCount = (declarations documents).length

/-- The workspaces differ at most in the order in which their indexes list the names. -/
structure Agrees (workspace other : Workspace) : Prop where
  settings : workspace.settings = other.settings
  documents : workspace.documents = other.documents
  entries : workspace.index.entries.Perm other.index.entries

theorem Tracks.get?_eq_some_iff (h : Tracks workspace settings documents) (uri text : String) :
    workspace.documents.get? uri = some text ↔ (uri, text) ∈ documents := by
  rw [Documents.get?_eq_some_iff, h.mem_entries]

theorem Tracks.mem_names_iff (h : Tracks workspace settings documents) (name : String) :
    name ∈ workspace.index.names ↔
      ∃ document ∈ documents, ∃ occurrence ∈ scan document.1 document.2,
        occurrence.name = name := by
  rw [h.groups.mem_names]
  constructor
  · rintro ⟨occurrence, hmem, hname⟩
    obtain ⟨document, hdocument, hscan⟩ := (mem_declarations documents occurrence).mp hmem
    exact ⟨document, hdocument, occurrence, hscan, hname⟩
  · rintro ⟨document, hdocument, occurrence, hscan, hname⟩
    have hmem := (mem_declarations documents occurrence).mpr ⟨document, hdocument, hscan⟩
    exact ⟨occurrence, hmem, hname⟩

theorem Tracks.declares_iff (h : Tracks workspace settings documents) (name uri : String) :
    workspace.index.declares name uri ↔
      ∃ text, (uri, text) ∈ documents ∧ ∃ occurrence ∈ scan uri text, occurrence.name = name := by
  rw [h.groups.declares_iff]
  constructor
  · rintro ⟨occurrence, hmem, hname, huri⟩
    obtain ⟨document, hdocument, hscan⟩ := (mem_declarations documents occurrence).mp hmem
    have hsame : document.1 = uri := (uri_of_mem_scan hscan).symm.trans huri
    exact ⟨document.2, hsame ▸ hdocument, occurrence, hsame ▸ hscan, hname⟩
  · rintro ⟨text, hdocument, occurrence, hscan, hname⟩
    have hmem : occurrence ∈ declarations documents :=
      (mem_declarations documents occurrence).mpr ⟨(uri, text), hdocument, hscan⟩
    exact ⟨occurrence, hmem, hname, uri_of_mem_scan hscan⟩

theorem Tracks.document_eq (h : Tracks workspace settings documents)
    (nodup : (documents.map Prod.fst).Nodup) {uri text : String} (hmem : (uri, text) ∈ documents) :
    workspace.index.document uri = scan uri text := by
  have hscan : (declarations documents).filter (·.uri == uri) = scan uri text := by
    rw [filter_declarations (· == uri), filter_uri_eq nodup hmem]
    simp [declarations]
  have houtline := (h.groups.isOutline_document uri).eq_filter
  rw [hscan] at houtline
  exact houtline (pairwise_line_scan uri text)

theorem Tracks.document_eq_nil (h : Tracks workspace settings documents) {uri : String}
    (hmem : uri ∉ documents.map Prod.fst) : workspace.index.document uri = [] := by
  have hnone : documents.filter (·.1 == uri) = [] := by
    rw [List.filter_eq_nil_iff]
    intro document hdocument heq
    exact hmem (List.mem_map.mpr ⟨document, hdocument, by simpa using heq⟩)
  have hperm := (h.groups.isOutline_document uri).perm
  rw [filter_declarations (· == uri), hnone] at hperm
  exact hperm.eq_nil

theorem Tracks.shows (h : Tracks workspace settings documents)
    (nodup : (documents.map Prod.fst).Nodup) : Shows workspace documents where
  text := h.get?_eq_some_iff
  lookup name := by rw [h.groups.lookup_eq, declarations, List.filter_flatMap]
  lines := pairwise_line_scan
  names_nodup := h.groups.nodup
  mem_names := h.mem_names_iff
  occurrences_ne_nil _ hentry := h.groups.ne_nil_of_mem hentry
  declares := h.declares_iff
  outline _ _ hmem := h.document_eq nodup hmem
  no_outline _ hmem := h.document_eq_nil hmem
  size := h.groups.size_eq
  occurrenceCount := h.groups.occurrences_perm.length_eq

theorem Tracks.agrees (h : Tracks workspace settings documents)
    (hother : Tracks other settings documents) : Agrees workspace other where
  settings := h.settings_eq.trans hother.settings_eq.symm
  documents := Documents.ext_mem fun entry ↦
    (h.mem_entries entry).trans (hother.mem_entries entry).symm
  entries := h.groups.entries_perm hother.groups

/-- After any events the workspace holds the texts of the documents whose last event opened or
changed them, shows their declarations and nothing else, and agrees with a new workspace in which
these documents have been opened in the order of their last events. -/
theorem run_replays_live (settings : Settings) (events : List Event) :
    (∀ uri text, ((empty settings).run events).documents.get? uri = some text ↔
      ∃ event, lastEvent? events uri = some event ∧ event.kind ≠ .closed ∧ event.text = text) ∧
    Shows ((empty settings).run events) (live events) ∧
    Agrees ((empty settings).run events) ((empty settings).run
      ((live events).map fun document ↦ ⟨document.1, document.2, .opened⟩)) := by
  have htracks := tracks_run settings events
  have hnodup := nodup_live_uris events
  refine ⟨?_, htracks.shows hnodup, ?_⟩
  · intro uri text
    rw [htracks.get?_eq_some_iff, mem_live]
  · have hreplay := tracks_run settings
      ((live events).map fun document ↦ ⟨document.1, document.2, .opened⟩)
    rw [live_map_opened hnodup] at hreplay
    exact htracks.agrees hreplay

end ScriptSense.Workspace
