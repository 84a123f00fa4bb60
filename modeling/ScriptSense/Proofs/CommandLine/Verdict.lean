import ScriptSense.Proofs.CommandLine.Isolation
import ScriptSense.Proofs.Diagnostic.Errors
import ScriptSense.Proofs.Files.Place
import ScriptSense.Proofs.Uri.Percent

/-!
# The verdict of a check

A check fails exactly when a report has an error. A report is cut off at the limit of the settings
before its errors are counted, so an error counts only if the warnings before it leave room for it.
-/

namespace ScriptSense.CommandLine.Check

open Files Diagnose

/-- What is wrong with the file at `path`, before the report is cut off. -/
def findings (files : Tree) (path text : String) : List Finding :=
  Diagnose.findings (Symbol.Index.empty.reindex (files.uri path) text) (files.uri path) text

theorem checkAlone_eq {files : Tree} (settings : Settings) {path text : String}
    (h : files.readText path = .ok text) :
    checkAlone files settings path = .ok ⟨path, files.uri path, ⟨files.uri path,
      ((findings files path text).take settings.maxProblems).map
        (Finding.toDiagnostic settings.diagnosticSource)⟩⟩ := by
  simp only [checkAlone, openAlone, openFile, h]
  rfl

theorem verdict_isSome_iff (opened : List OpenedFile) :
    (verdict opened).isSome ↔
      ∃ file ∈ opened, ∃ diagnostic ∈ file.report.diagnostics, diagnostic.severity = .error := by
  have hverdict : (verdict opened).isSome ↔ 0 < total .error opened := by
    simp only [verdict]
    split <;> simp_all
  rw [hverdict, total, List.countP_pos_iff]
  simp only [List.mem_flatMap, beq_iff_eq]
  constructor
  · rintro ⟨diagnostic, ⟨file, hfile, hmem⟩, herror⟩
    exact ⟨file, hfile, diagnostic, hmem, herror⟩
  · rintro ⟨file, hfile, diagnostic, hmem, herror⟩
    exact ⟨diagnostic, ⟨file, hfile, hmem⟩, herror⟩

theorem exists_report {report : Report} {names : List String} (h : report.uri = fileUri names) :
    ∃ json, Editor.report report = .ok json := by
  obtain ⟨text, htext⟩ := Uri.exists_normalize_fileUri names
  rw [Editor.report, h, htext]
  exact ⟨_, rfl⟩

theorem exists_mapM_ok {ε α β : Type} {f : α → Except ε β} {items : List α}
    (h : ∀ item ∈ items, ∃ result, f item = .ok result) :
    ∃ results, items.mapM f = .ok results := by
  induction items with
  | nil => exact ⟨[], rfl⟩
  | cons item rest ih =>
    obtain ⟨result, hresult⟩ := h item List.mem_cons_self
    obtain ⟨results, hresults⟩ := ih fun item hitem ↦ h item (List.mem_cons_of_mem _ hitem)
    exact ⟨_, mapM_cons_eq_ok_iff.mpr ⟨result, results, hresult, hresults, rfl⟩⟩

/-- The reports of files can be printed in either form. -/
theorem exists_output (json : Bool) {opened : List OpenedFile}
    (h : ∀ file ∈ opened, ∃ names, file.report.uri = fileUri names) :
    ∃ text, output json opened = .ok text := by
  cases json with
  | false => exact ⟨_, rfl⟩
  | true =>
    obtain ⟨reports, hreports⟩ :=
      exists_mapM_ok fun file hfile ↦ exists_report (h file hfile).choose_spec
    simp only [output, hreports, if_true]
    exact ⟨_, rfl⟩

/-- All the files that a check looks at can be read. -/
def IsReadable (files : Tree) (path : String) : Prop :=
  files.exists? path ∧ ∀ target ∈ targets files path, ∃ text, files.readText target = .ok text

theorem exists_uri_of_readText {files : Tree} {path text : String}
    (h : files.readText path = .ok text) : ∃ names, files.uri path = fileUri names := by
  obtain ⟨names, hnames⟩ := Tree.exists_resolve_of_readText h
  exact ⟨names, by rw [Tree.uri, hnames]⟩

theorem exists_error_reported_iff (files : Tree) (settings : Settings) (path text : String) :
    (∃ diagnostic ∈ ((findings files path text).take settings.maxProblems).map
        (Finding.toDiagnostic settings.diagnosticSource), diagnostic.severity = .error) ↔
      (∃ line ∈ Text.lines text, IsErroneous line) ∧
        (leadingWarnings (findings files path text)).length < settings.maxProblems := by
  have hreported : (∃ diagnostic ∈ ((findings files path text).take settings.maxProblems).map
      (Finding.toDiagnostic settings.diagnosticSource), diagnostic.severity = .error) ↔
      ∃ finding ∈ (findings files path text).take settings.maxProblems,
        finding.problem.severity = .error := by
    simp only [List.mem_map, exists_exists_and_eq_and]
    rfl
  rw [hreported, exists_error_take_iff]
  exact and_congr_left fun _ ↦ exists_error_findingsFrom_iff

/-- A check fails exactly when one of its files has a line with an error, and in the file fewer
warnings come before the first error than the settings allow problems. -/
theorem run_fails_iff {files : Tree} (settings : Settings) (json : Bool) {path : String}
    (h : IsReadable files path) :
    (run files settings json path).failure.isSome ↔
      ∃ target ∈ targets files path, ∃ text, files.readText target = .ok text ∧
        (∃ line ∈ Text.lines text, IsErroneous line) ∧
          (leadingWarnings (findings files target text)).length < settings.maxProblems := by
  obtain ⟨hexists, hread⟩ := h
  obtain ⟨opened, hopened⟩ : ∃ opened, collect files settings path = .ok opened := by
    rw [collect_eq_mapM settings hexists]
    apply exists_mapM_ok
    intro target htarget
    obtain ⟨text, htext⟩ := hread target htarget
    exact ⟨_, checkAlone_eq settings htext⟩
  obtain ⟨-, hpaths, hall⟩ := collect_eq_ok_iff.mp hopened
  have hfile (file : OpenedFile) (hmem : file ∈ opened) :
      ∃ text, files.readText file.path = .ok text ∧
        checkAlone files settings file.path = .ok file := by
    have htarget : file.path ∈ targets files path := hpaths ▸ List.mem_map_of_mem hmem
    obtain ⟨text, htext⟩ := hread file.path htarget
    exact ⟨text, htext, hall file hmem⟩
  have huri : ∀ file ∈ opened, ∃ names, file.report.uri = fileUri names := by
    intro file hmem
    obtain ⟨text, htext, hcheck⟩ := hfile file hmem
    rw [checkAlone_eq settings htext] at hcheck
    rw [← Except.ok.inj hcheck]
    exact exists_uri_of_readText htext
  obtain ⟨printed, hprinted⟩ := exists_output json huri
  simp only [run, hopened, hprinted, verdict_isSome_iff]
  constructor
  · rintro ⟨file, hmem, herror⟩
    obtain ⟨text, htext, hcheck⟩ := hfile file hmem
    rw [checkAlone_eq settings htext] at hcheck
    rw [← Except.ok.inj hcheck] at herror
    exact ⟨file.path, hpaths ▸ List.mem_map_of_mem hmem, text, htext,
      (exists_error_reported_iff files settings file.path text).mp herror⟩
  · rintro ⟨target, htarget, text, htext, herror⟩
    rw [← hpaths] at htarget
    obtain ⟨file, hmem, rfl⟩ := List.mem_map.mp htarget
    have hcheck := hall file hmem
    rw [checkAlone_eq settings htext] at hcheck
    refine ⟨file, hmem, ?_⟩
    rw [← Except.ok.inj hcheck]
    exact (exists_error_reported_iff files settings file.path text).mpr herror

/-- A script whose first line has a warning and whose second line has an error. -/
def lateError : Tree :=
  ⟨.directory [("a.inmu", .file (Text.encodeUtf8 "print zz\nlet y".toList))], []⟩

theorem isReadable_lateError : IsReadable lateError "a.inmu" := by
  have htargets : targets lateError "a.inmu" = ["a.inmu"] := by decide +kernel
  refine ⟨by decide +kernel, ?_⟩
  rw [htargets, List.forall_mem_singleton]
  exact ⟨"print zz\nlet y", by decide +kernel⟩

theorem isErroneous_lateError : ∃ line ∈ Text.lines "print zz\nlet y", IsErroneous line :=
  ⟨"let y".toList, by decide +kernel, by decide +kernel, by decide +kernel,
    .inl (by decide +kernel)⟩

/-- With room for two problems, the error is told after the warning. -/
theorem run_fails_lateError :
    IsReadable lateError "a.inmu" ∧
      (run lateError (Settings.standard.withMaxProblems 2) false "a.inmu").failure.isSome := by
  refine ⟨isReadable_lateError, (run_fails_iff _ false isReadable_lateError).mpr ?_⟩
  exact ⟨"a.inmu", by decide +kernel, "print zz\nlet y", by decide +kernel, isErroneous_lateError,
    by decide +kernel⟩

/-- With room for one problem, the warning takes the place of the error, and the check succeeds. -/
theorem run_overlooks_error :
    IsReadable lateError "a.inmu" ∧ lateError.readText "a.inmu" = .ok "print zz\nlet y" ∧
      (∃ line ∈ Text.lines "print zz\nlet y", IsErroneous line) ∧
        (run lateError (Settings.standard.withMaxProblems 1) false "a.inmu").failure = none :=
  ⟨isReadable_lateError, by decide +kernel, isErroneous_lateError, by decide +kernel⟩

end ScriptSense.CommandLine.Check
