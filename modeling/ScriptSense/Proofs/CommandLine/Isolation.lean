import Mathlib.Tactic.ByContra
import ScriptSense.CommandLine.Command
import ScriptSense.Proofs.Workspace.Reports

/-!
# Files are checked independently of each other

Opening files one after the other in one workspace finds in each of them what opening it alone
finds, since a report does not depend on what was opened before. Checking a directory is therefore
checking each script below it.
-/

namespace ScriptSense.CommandLine

open Files

theorem mapM_cons_eq_ok_iff {ε α β : Type} {f : α → Except ε β} {x : α} {rest : List α}
    {ys : List β} :
    (x :: rest).mapM f = .ok ys ↔
      ∃ y others, f x = .ok y ∧ rest.mapM f = .ok others ∧ ys = y :: others := by
  rw [List.mapM_cons]
  cases f x with
  | error failure => simp [bind, Except.bind]
  | ok y => cases rest.mapM f <;> simp [bind, Except.bind, pure, Except.pure, eq_comm]

/-- What is found in a file that is opened in a new workspace. -/
def checkAlone (files : Tree) (settings : Settings) (path : String) : Except Failure OpenedFile :=
  (openAlone files settings path).map Prod.snd

theorem openFile_map_snd (files : Tree) (workspace : Workspace) (path : String) :
    (openFile files workspace path).map Prod.snd =
      checkAlone files workspace.settings path := by
  unfold checkAlone openAlone openFile
  cases files.readText path with
  | error trouble => rfl
  | ok text =>
    have hsettings : workspace.settings = (Workspace.empty workspace.settings).settings := rfl
    have hreport :=
      Workspace.report_eq_of_settings_eq hsettings ⟨files.uri path, text, .opened⟩
    simp only [Except.map, hreport]

theorem settings_of_openFile {files : Tree} {workspace next : Workspace} {path : String}
    {opened : OpenedFile} (h : openFile files workspace path = .ok (next, opened)) :
    next.settings = workspace.settings := by
  unfold openFile at h
  split at h
  · simp at h
  · simp only [Except.ok.injEq, Prod.mk.injEq] at h
    rw [← h.1]
    exact Workspace.settings_apply workspace _

/-- Opening files one after the other finds in each what opening it alone finds, and stops at the
first that cannot be read. -/
theorem openAll_map_snd (files : Tree) (workspace : Workspace) (paths : List String) :
    (openAll files workspace paths).map Prod.snd =
      paths.mapM (checkAlone files workspace.settings) := by
  induction paths generalizing workspace with
  | nil => rfl
  | cons path rest ih =>
    rw [List.mapM_cons, ← openFile_map_snd, openAll]
    cases hopen : openFile files workspace path with
    | error failure => rfl
    | ok found =>
      obtain ⟨next, opened⟩ := found
      rw [← settings_of_openFile hopen, ← ih next]
      cases hrest : openAll files next rest <;> simp [Except.map, bind, Except.bind, pure,
        Except.pure, hrest]

namespace Check

/-- The files that a check of `path` looks at. -/
def targets (files : Tree) (path : String) : List String :=
  if files.isFile path then [path] else files.scripts path

theorem exists_of_isFile {files : Tree} {path : String} (h : files.isFile path) :
    files.exists? path := by
  unfold Tree.isFile at h
  unfold Tree.exists?
  split at h
  · rename_i hnode
    rw [hnode]
    rfl
  · simp at h

theorem isFile_of_readText {files : Tree} {path text : String}
    (h : files.readText path = .ok text) : files.isFile path := by
  unfold Tree.readText at h
  unfold Tree.isFile Tree.node?
  split at h
  · simp at h
  · rename_i names hresolve
    rw [hresolve]
    split at h <;> simp_all

theorem collect_eq_mapM {files : Tree} (settings : Settings) {path : String}
    (h : files.exists? path) :
    collect files settings path = (targets files path).mapM (checkAlone files settings) := by
  unfold collect targets
  split
  · rw [List.mapM_cons, List.mapM_nil, checkAlone]
    cases openAlone files settings path <;> rfl
  · rw [openTree, if_pos h]
    exact openAll_map_snd files (Workspace.empty settings) (files.scripts path)

theorem exists_of_collect {files : Tree} {settings : Settings} {path : String}
    {opened : List OpenedFile} (h : collect files settings path = .ok opened) :
    files.exists? path := by
  by_contra hmissing
  have hfile : ¬files.isFile path := fun hfile ↦ hmissing (exists_of_isFile hfile)
  rw [collect, if_neg hfile, openTree, if_neg hmissing] at h
  simp [Except.map] at h

theorem of_checkAlone {files : Tree} {settings : Settings} {path : String} {file : OpenedFile}
    (h : checkAlone files settings path = .ok file) : file.path = path ∧ files.isFile path := by
  unfold checkAlone openAlone openFile at h
  cases hread : files.readText path with
  | error trouble => simp [hread, Except.map] at h
  | ok text =>
    simp only [hread, Except.map, Except.ok.injEq] at h
    exact ⟨by rw [← h], isFile_of_readText hread⟩

theorem mapM_checkAlone_eq_ok_iff {files : Tree} {settings : Settings} {paths : List String}
    {opened : List OpenedFile} :
    paths.mapM (checkAlone files settings) = .ok opened ↔
      opened.map OpenedFile.path = paths ∧
        ∀ file ∈ opened, checkAlone files settings file.path = .ok file := by
  induction paths generalizing opened with
  | nil => cases opened <;> simp [pure, Except.pure]
  | cons path rest ih =>
    rw [mapM_cons_eq_ok_iff]
    constructor
    · rintro ⟨file, others, hfile, hothers, rfl⟩
      obtain ⟨hpaths, hall⟩ := ih.mp hothers
      have hpath := (of_checkAlone hfile).1
      refine ⟨by rw [List.map_cons, hpath, hpaths], ?_⟩
      intro other hmem
      rcases List.mem_cons.mp hmem with rfl | hmem
      · rw [hpath, hfile]
      · exact hall other hmem
    · rintro ⟨hpaths, hall⟩
      obtain ⟨file, others, rfl, hpath, hrest⟩ := List.map_eq_cons_iff.mp hpaths
      refine ⟨file, others, ?_, ih.mpr ⟨hrest, ?_⟩, rfl⟩
      · rw [← hpath]
        exact hall file List.mem_cons_self
      · intro other hmem
        exact hall other (List.mem_cons_of_mem _ hmem)

theorem collect_eq_ok_iff {files : Tree} {settings : Settings} {path : String}
    {opened : List OpenedFile} :
    collect files settings path = .ok opened ↔
      files.exists? path ∧ opened.map OpenedFile.path = targets files path ∧
        ∀ file ∈ opened, checkAlone files settings file.path = .ok file := by
  constructor
  · intro h
    have hexists := exists_of_collect h
    rw [collect_eq_mapM settings hexists, mapM_checkAlone_eq_ok_iff] at h
    exact ⟨hexists, h⟩
  · rintro ⟨hexists, h⟩
    rw [collect_eq_mapM settings hexists, mapM_checkAlone_eq_ok_iff]
    exact h

/-- A check of one file finds what opening it alone finds. -/
theorem collect_path_eq_ok_iff {files : Tree} {settings : Settings} {file : OpenedFile} :
    collect files settings file.path = .ok [file] ↔
      checkAlone files settings file.path = .ok file := by
  rw [collect_eq_ok_iff]
  constructor
  · rintro ⟨_, _, hall⟩
    exact hall file List.mem_cons_self
  · intro h
    have hfile := (of_checkAlone h).2
    refine ⟨exists_of_isFile hfile, by rw [targets, if_pos hfile]; rfl, ?_⟩
    intro other hmem
    rwa [List.mem_singleton.mp hmem]

end Check

/-- Whatever events came before, a report is the one that a new workspace with the same settings
gives for the event alone. A check of a path succeeds exactly when a check of each of its files
does, and finds in each the same. -/
theorem report_independent_of_history (settings : Settings) :
    (∀ (events : List Event) (event : Event),
      (((Workspace.empty settings).run events).apply event).2 =
        ((Workspace.empty settings).apply event).2) ∧
    ∀ (files : Tree) (path : String) (opened : List OpenedFile),
      Check.collect files settings path = .ok opened ↔
        files.exists? path ∧ opened.map OpenedFile.path = Check.targets files path ∧
          ∀ file ∈ opened, Check.collect files settings file.path = .ok [file] := by
  constructor
  · intro events event
    exact Workspace.report_eq_of_settings_eq (Workspace.settings_run _ events) event
  · intro files path opened
    simp only [Check.collect_path_eq_ok_iff]
    exact Check.collect_eq_ok_iff

end ScriptSense.CommandLine
