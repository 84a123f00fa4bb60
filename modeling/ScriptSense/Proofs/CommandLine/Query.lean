import ScriptSense.CommandLine.Command
import ScriptSense.Proofs.CommandLine.Isolation
import ScriptSense.Proofs.Files.Discovery
import ScriptSense.Proofs.Workspace.Definitions

/-!
# A query does not depend on how its file is written

The scripts below the root are opened in the order of their paths, and the file that is asked about
is opened after them unless one of them leads to the same place. Since a place has one URI, every
document is opened once, whatever path is given for the file.
-/

namespace ScriptSense.CommandLine.Query

open Files

/-- The event of opening the file at `path`. -/
def opening (files : Tree) (path : String) : Except Failure Event :=
  match files.readText path with
  | .error trouble => .error (.reading path trouble)
  | .ok text => .ok ⟨files.uri path, text, .opened⟩

theorem opening_eq_ok_iff {files : Tree} {path : String} {event : Event} :
    opening files path = .ok event ↔
      ∃ text, files.readText path = .ok text ∧ event = ⟨files.uri path, text, .opened⟩ := by
  unfold opening
  cases files.readText path <;> simp [eq_comm]

/-- Opening files one after the other runs the events of opening them. -/
theorem openAll_map_fst (files : Tree) (workspace : Workspace) (paths : List String) :
    (openAll files workspace paths).map Prod.fst =
      (paths.mapM (opening files)).map workspace.run := by
  induction paths generalizing workspace with
  | nil => rfl
  | cons path rest ih =>
    rw [List.mapM_cons, openAll, openFile, opening]
    cases files.readText path with
    | error trouble => rfl
    | ok text =>
      have hrest := ih (workspace.apply ⟨files.uri path, text, .opened⟩).1
      simp only
      cases hopen : openAll files (workspace.apply ⟨files.uri path, text, .opened⟩).1 rest <;>
        cases hevents : rest.mapM (opening files) <;>
          simp_all [Except.map, bind, Except.bind, pure, Except.pure, Workspace.run]

/-- The events of opening files name their URIs, and nothing is closed. -/
theorem of_mapM_opening {files : Tree} {paths : List String} {events : List Event}
    (h : paths.mapM (opening files) = .ok events) :
    events.map Event.uri = paths.map files.uri ∧ ∀ event ∈ events, event.kind ≠ .closed := by
  induction paths generalizing events with
  | nil =>
    obtain rfl := Except.ok.inj h
    simp
  | cons path rest ih =>
    obtain ⟨event, others, hevent, hothers, rfl⟩ := mapM_cons_eq_ok_iff.mp h
    obtain ⟨text, -, rfl⟩ := opening_eq_ok_iff.mp hevent
    obtain ⟨huris, hkinds⟩ := ih hothers
    exact ⟨by rw [List.map_cons, List.map_cons, huris], by simpa using hkinds⟩

theorem contains_run_iff (settings : Settings) {events : List Event}
    (h : ∀ event ∈ events, event.kind ≠ .closed) (uri : String) :
    ((Workspace.empty settings).run events).documents.contains uri ↔
      uri ∈ events.map Event.uri := by
  rw [Documents.contains, Option.isSome_iff_exists]
  simp only [Workspace.get?_run_eq_some_iff, Workspace.mem_live, Workspace.lastEvent?]
  constructor
  · rintro ⟨text, event, hlast, -, -⟩
    have huri : event.uri = uri := by simpa using List.find?_some hlast
    rw [← huri]
    exact List.mem_map_of_mem (List.mem_reverse.mp (List.mem_of_find?_eq_some hlast))
  · intro hmem
    obtain ⟨event, hevent, rfl⟩ := List.mem_map.mp hmem
    have hsome : (events.reverse.find? (·.uri == event.uri)).isSome := by
      rw [List.find?_isSome]
      exact ⟨event, List.mem_reverse.mpr hevent, beq_self_eq_true event.uri⟩
    obtain ⟨last, hlast⟩ := Option.isSome_iff_exists.mp hsome
    exact ⟨last.text, last, hlast,
      h last (List.mem_reverse.mp (List.mem_of_find?_eq_some hlast)), rfl⟩

/-- The paths that a query opens: the scripts below the root, and the file unless one of them leads
to it. -/
def sources (files : Tree) (root file : String) : List String :=
  if files.resolve file ∈ (files.scripts root).map files.resolve then files.scripts root
  else files.scripts root ++ [file]

theorem leadTo_sources {files : Tree} (hproper : files.root.isProper) (root : String)
    {file : String} {place : List String} (h : files.resolve file = .ok place) :
    LeadTo files (fun _ ↦ True) (sources files root file) := by
  have hscripts : LeadTo files (fun _ ↦ True) (files.scripts root) :=
    (files.leadTo_scripts hproper root).imp fun _ _ ↦ trivial
  unfold sources
  split
  · exact hscripts
  · rename_i hfresh
    refine ⟨?_, ?_⟩
    · intro path hpath
      rcases List.mem_append.mp hpath with hpath | hpath
      · exact hscripts.allowed path hpath
      · rw [List.mem_singleton.mp hpath]
        exact ⟨place, h, trivial⟩
    · rw [List.map_append, List.map_singleton, List.nodup_append]
      refine ⟨hscripts.nodup, List.nodup_singleton _, ?_⟩
      intro resolved hresolved other hother heq
      rw [heq, List.mem_singleton.mp hother] at hresolved
      exact hfresh hresolved

theorem uri_mem_scripts_iff {files : Tree} (hproper : files.root.isProper) (root : String)
    {file : String} {place : List String} (h : files.resolve file = .ok place) :
    files.uri file ∈ (files.scripts root).map files.uri ↔
      files.resolve file ∈ (files.scripts root).map files.resolve := by
  have hscripts := files.leadTo_scripts hproper root
  simp only [List.mem_map]
  apply exists_congr
  intro script
  apply and_congr_right
  intro hscript
  obtain ⟨scriptPlace, hplace, -⟩ := hscripts.allowed script hscript
  exact Tree.uri_eq_iff hproper hplace h

/-- After the scripts, the file is opened unless one of them leads to it. -/
theorem openTarget_run {files : Tree} (hproper : files.root.isProper) (settings : Settings)
    {root file : String} {place : List String} (h : files.resolve file = .ok place)
    {events : List Event} (hevents : (files.scripts root).mapM (opening files) = .ok events) :
    openTarget files ((Workspace.empty settings).run events) file =
      ((sources files root file).mapM (opening files)).map fun events ↦
        ((Workspace.empty settings).run events, files.uri file) := by
  obtain ⟨huris, hkinds⟩ := of_mapM_opening hevents
  have hcontains : ((Workspace.empty settings).run events).documents.contains (files.uri file) ↔
      files.resolve file ∈ (files.scripts root).map files.resolve := by
    rw [contains_run_iff settings hkinds, huris, uri_mem_scripts_iff hproper root h]
  unfold openTarget sources
  by_cases hmem : files.resolve file ∈ (files.scripts root).map files.resolve
  · rw [if_pos hmem, if_pos (hcontains.mpr hmem), hevents]
    rfl
  · rw [if_neg hmem, if_neg (mt hcontains.mp hmem), List.mapM_append, hevents, openFile]
    simp only [List.mapM_cons, List.mapM_nil, opening]
    cases files.readText file with
    | error trouble => rfl
    | ok text =>
      simp [Except.map, bind, Except.bind, pure, Except.pure, Workspace.run]

theorem mapM_sources_of_error {files : Tree} {root : String} (file : String) {failure : Failure}
    (h : (files.scripts root).mapM (opening files) = .error failure) :
    (sources files root file).mapM (opening files) = .error failure := by
  unfold sources
  split
  · exact h
  · rw [List.mapM_append, h]
    rfl

/-- A query opens its sources one after the other, and asks the workspace that this leaves. -/
theorem execute_eq {files : Tree} (hproper : files.root.isProper) (settings : Settings)
    (request : Request) {place : List String} (h : files.resolve request.file = .ok place) :
    execute files settings request =
      (toPosition request.line request.column).bind fun position ↦
        if files.exists? request.root then
          ((sources files request.root request.file).mapM (opening files)).map fun events ↦
            answer ((Workspace.empty settings).run events) (files.uri request.file) position
              request.question
        else .error (.ofMessage (request.root ++ " does not exist")) := by
  unfold execute
  cases toPosition request.line request.column with
  | error failure => rfl
  | ok position =>
    simp only [Except.bind, openTree]
    by_cases hroot : files.exists? request.root
    · rw [if_pos hroot, if_pos hroot]
      have hopened := openAll_map_fst files (Workspace.empty settings) (files.scripts request.root)
      -- A script that cannot be read ends the loading before it comes to the file.
      cases hevents : (files.scripts request.root).mapM (opening files) with
      | error failure =>
        rw [mapM_sources_of_error _ hevents]
        cases hload : openAll files (Workspace.empty settings) (files.scripts request.root) with
        | error other => simpa [hload, hevents, Except.map] using hopened
        | ok loaded => simp [hload, hevents, Except.map] at hopened
      | ok events =>
        have htarget := openTarget_run hproper settings h hevents
        cases hload : openAll files (Workspace.empty settings) (files.scripts request.root) with
        | error other => simp [hload, hevents, Except.map] at hopened
        | ok loaded =>
          have hrun : loaded.1 = (Workspace.empty settings).run events := by
            simpa [hload, hevents, Except.map] using hopened
          simp only [hrun, htarget]
          cases (sources files request.root request.file).mapM (opening files) <;> rfl
    · rw [if_neg hroot, if_neg hroot]

theorem readText_eq_of_resolve {files : Tree} {file other : String}
    (h : files.resolve other = files.resolve file) :
    files.readText other = files.readText file := by
  rw [Tree.readText, Tree.readText, h]

/-- A path to the same place opens the same workspace. -/
theorem mapM_sources_eq {files : Tree} {root file other text : String}
    (h : files.resolve other = files.resolve file) (hread : files.readText file = .ok text)
    (huri : files.uri other = files.uri file) :
    (sources files root other).mapM (opening files) =
      (sources files root file).mapM (opening files) := by
  have hopening : opening files other = opening files file := by
    rw [opening, opening, readText_eq_of_resolve h, hread, huri]
  unfold sources
  rw [h]
  split
  · rfl
  · rw [List.mapM_append, List.mapM_append, List.mapM_cons, List.mapM_cons, hopening]

theorem exists_source {files : Tree} (root file : String) :
    ∃ source ∈ sources files root file, files.resolve source = files.resolve file := by
  unfold sources
  split
  · rename_i hmem
    exact List.mem_map.mp hmem
  · exact ⟨file, by simp, rfl⟩

/-- What a query gives is an answer of a workspace after events. -/
theorem exists_answer {files : Tree} (hproper : files.root.isProper) {settings : Settings}
    {request : Request} {place : List String} (h : files.resolve request.file = .ok place)
    {found : Answer} (hfound : execute files settings request = .ok found) :
    ∃ position events, found = answer ((Workspace.empty settings).run events)
      (files.uri request.file) position request.question := by
  rw [execute_eq hproper settings request h] at hfound
  cases hposition : toPosition request.line request.column with
  | error failure => simp [hposition, Except.bind] at hfound
  | ok position =>
    simp only [hposition, Except.bind] at hfound
    split at hfound
    · cases hevents : (sources files request.root request.file).mapM (opening files) with
      | error failure => simp [hevents, Except.map] at hfound
      | ok events =>
        rw [hevents] at hfound
        exact ⟨position, events, (Except.ok.inj hfound).symm⟩
    · cases hfound

theorem nodup_answer {settings : Settings} {events : List Event} {uri : String}
    {position : Position} {question : Question} {locations : List Location}
    (h : answer ((Workspace.empty settings).run events) uri position question =
      .locations locations) : locations.Nodup := by
  cases question with
  | hover => cases h
  | definition =>
    rw [← Answer.locations.inj h]
    exact Workspace.nodup_definitions settings events uri position
  | references =>
    rw [← Answer.locations.inj h]
    exact Workspace.nodup_references _ uri position

/-- Two scripts, of which the working directory holds one; the other declares what it prints. -/
def neighbours : Tree :=
  ⟨.directory [("app", .directory [("a.inmu", .file (Text.encodeUtf8 "print total".toList))]),
    ("lib", .directory [("b.inmu", .file (Text.encodeUtf8 "let total = 1".toList))])], ["app"]⟩

theorem scripts_neighbours :
    neighbours.scripts ".." = ["../app/a.inmu", "../lib/b.inmu"] := by
  have hresolve : neighbours.resolve ".." = .ok [] := by decide +kernel
  have hnode : neighbours.root.descend? [] = some neighbours.root := rfl
  have hfound : (Discovery.filesBelow (Discovery.rulesAbove neighbours.root []) ".." []
      neighbours.root).filter isScript = ["../app/a.inmu", "../lib/b.inmu"] := by
    decide +kernel
  simp only [Tree.scripts, hresolve, hnode, hfound]
  exact List.mergeSort_of_pairwise (by decide +kernel)

end ScriptSense.CommandLine.Query
