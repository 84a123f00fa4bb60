import ScriptSense.CommandLine.Command
import ScriptSense.Proofs.Document.Replacement
import ScriptSense.Proofs.Document.Store
import ScriptSense.Proofs.Files.Writing

/-!
# Indenting a file in place

The indented form of a text is determined by its trimmed lines, and these stay as they are. However
often a file was indented before, and in whatever styles, indenting it once more has the effect of
indenting it for the first time. A host that applies the edit to its own text gets what the command
writes, unless the text ends with a carriage return.
-/

namespace ScriptSense.CommandLine.Format

open Files Text

/-- A use of the command that writes the indented text to the file. -/
structure Use where
  settings : Settings
  json : Bool
  style : IndentStyle

def Use.run (use : Use) (files : Tree) (path : String) : Outcome :=
  Format.run files use.settings use.json use.style true path

/-- The files after the command was used several times. -/
def runAll (files : Tree) (path : String) (uses : List Use) : Tree :=
  uses.foldl (fun files use ↦ (use.run files path).files) files

section Run

variable {files : Tree} {path text : String}

theorem edit_of_readText_eq_error {trouble : Trouble} (h : files.readText path = .error trouble)
    (settings : Settings) (style : IndentStyle) :
    edit files settings style path = .error (.reading path trouble) := by
  rw [edit, openAlone, openFile, h]

theorem edit_of_readText_eq_ok (h : files.readText path = .ok text) (settings : Settings)
    (style : IndentStyle) : edit files settings style path = .ok (Layout.format text style) := by
  have hopen (workspace : Workspace) :
      (workspace.apply ⟨files.uri path, text, .opened⟩).1.format (files.uri path) style =
        some (Layout.format text style) :=
    congrArg (Option.map (Layout.format · style)) (Documents.get?_put_self _ _ _)
  rw [edit, openAlone, openFile, h]
  simp only [hopen]

theorem Use.run_of_readText_eq_error (use : Use) {trouble : Trouble}
    (h : files.readText path = .error trouble) :
    use.run files path = .failed files (.reading path trouble) := by
  rw [run, Format.run, edit_of_readText_eq_error h]

/-- A file that can be read is written, and nothing is printed. -/
theorem Use.run_of_readText_eq_ok (use : Use) (h : files.readText path = .ok text) :
    ∃ written, files.writeText path (Layout.format text use.style).newText = .ok written ∧
      use.run files path = .printed written "" := by
  obtain ⟨written, hwritten⟩ := Tree.exists_writeText h (Layout.format text use.style).newText
  refine ⟨written, hwritten, ?_⟩
  rw [run, Format.run, edit_of_readText_eq_ok h]
  simp only [if_true, hwritten]

end Run

theorem Use.readText_run (use : Use) (files : Tree) (path : String) :
    (use.run files path).files.readText path =
      (files.readText path).map fun text ↦ (Layout.format text use.style).newText := by
  cases h : files.readText path with
  | error trouble =>
    rw [use.run_of_readText_eq_error h]
    exact h
  | ok text =>
    obtain ⟨written, hwritten, hrun⟩ := use.run_of_readText_eq_ok h
    rw [hrun]
    exact Tree.readText_of_writeText h hwritten

/-- One use before leaves no trace in what a use does. -/
theorem Use.run_run (first second : Use) (files : Tree) (path : String) :
    second.run (first.run files path).files path = second.run files path := by
  cases h : files.readText path with
  | error trouble =>
    rw [first.run_of_readText_eq_error h]
    rfl
  | ok text =>
    obtain ⟨written, hwritten, hfirst⟩ := first.run_of_readText_eq_ok h
    have hread := Tree.readText_of_writeText h hwritten
    obtain ⟨again, hagain, hsecond⟩ := second.run_of_readText_eq_ok hread
    obtain ⟨once, honce, hdirect⟩ := second.run_of_readText_eq_ok h
    have hsame : again = once := by
      rw [Layout.newText_format, Tree.writeText_of_writeText h hwritten, honce] at hagain
      exact (Except.ok.inj hagain).symm
    calc second.run (first.run files path).files path
      _ = second.run written path := by rw [hfirst]; rfl
      _ = .printed once "" := by rw [hsecond, hsame]
      _ = second.run files path := hdirect.symm

/-- The uses before leave no trace in what a use does. -/
theorem Use.run_runAll (last : Use) (files : Tree) (path : String) (uses : List Use) :
    last.run (runAll files path uses) path = last.run files path := by
  induction uses generalizing files with
  | nil => rfl
  | cons use rest ih =>
    calc last.run (runAll files path (use :: rest)) path
      _ = last.run (use.run files path).files path := ih _
      _ = last.run files path := use.run_run last files path

/-- Indenting an indented text in some style gives what indenting the text itself in this style
gives, and two texts are indented alike if and only if their lines are the same when trimmed. So the
command that indents a file in place has the same outcome, and leaves the same files, whether or not
it was used on the file before, and a file that can be read is left with its indented text. -/
theorem indenting_is_normal :
    (∀ text first second,
      (Layout.format (Layout.format text first).newText second).newText =
        (Layout.format text second).newText) ∧
    (∀ text other style,
      (Layout.format text style).newText = (Layout.format other style).newText ↔
        (lines text).map trim = (lines other).map trim) ∧
    ∀ (files : Tree) (path : String) (uses : List Use) (last : Use),
      last.run (runAll files path uses) path = last.run files path ∧
      (last.run files path).files.readText path =
        (files.readText path).map fun text ↦ (Layout.format text last.style).newText := by
  refine ⟨Layout.newText_format, ?_, ?_⟩
  · intro text other style
    exact Layout.newText_eq_iff
  · intro files path uses last
    exact ⟨last.run_runAll files path uses, last.readText_run files path⟩

/-- After the edit that indents a text, there are the bytes of the indented text and those of a
carriage return at the end of the text, if there is one, so the edit replaces the whole text if and
only if there is none. The command that indents a file in place leaves the indented text alone. -/
theorem edit_leaves_final_return (text : String) (style : IndentStyle) :
    (Layout.format text style).applyTo text =
      encodeUtf8 ((Layout.format text style).newText.toList ++ finalReturn text.toList) ∧
    ((Layout.format text style).applyTo text =
      encodeUtf8 (Layout.format text style).newText.toList ↔ text.toList.getLast? ≠ some '\r') ∧
    ∀ files settings json path, files.readText path = .ok text →
      (Format.run files settings json style true path).failure = none ∧
      (Format.run files settings json style true path).files.readText path =
        .ok (Layout.format text style).newText := by
  refine ⟨Layout.applyTo_format text style, ?_, ?_⟩
  · rw [Layout.applyTo_format, encodeUtf8_append, List.append_right_eq_self, finalReturn]
    split <;> simp_all [encodeUtf8]
  · intro files settings json path h
    obtain ⟨written, hwritten, hrun⟩ := (Use.mk settings json style).run_of_readText_eq_ok h
    have hwhole : Format.run files settings json style true path = .printed written "" := hrun
    rw [hwhole]
    exact ⟨rfl, Tree.readText_of_writeText h hwritten⟩

/-- A text with both kinds of line ending, whose last line has a character of two units. -/
def mixed : String := "if a \x7b\r\nb\n\x7d '𝄞'"

def mixedFile : Tree := ⟨.directory [("a.inmu", .file (encodeUtf8 mixed.toList))], []⟩

theorem edit_leaves_final_return_of_mixed :
    mixedFile.readText "a.inmu" = .ok mixed ∧
      (Layout.format mixed ⟨2, true⟩).applyTo mixed =
        encodeUtf8 "if a \x7b\n  b\n\x7d '𝄞'".toList ∧
      (Format.run mixedFile Settings.standard false ⟨2, true⟩ true "a.inmu").files.readText
        "a.inmu" = .ok "if a \x7b\n  b\n\x7d '𝄞'" := by
  have hread : mixedFile.readText "a.inmu" = .ok mixed := by decide +kernel
  have hnew : (Layout.format mixed ⟨2, true⟩).newText = "if a \x7b\n  b\n\x7d '𝄞'" := by
    decide +kernel
  obtain ⟨-, hwhole, hrun⟩ := edit_leaves_final_return mixed ⟨2, true⟩
  refine ⟨hread, ?_, ?_⟩
  · rw [hwhole.mpr (by decide +kernel), hnew]
  · rw [(hrun _ Settings.standard false "a.inmu" hread).2, hnew]

/-- A carriage return is on no line here, and the edit does not reach over it. -/
theorem edit_overlooks_return :
    (Layout.format "a\r" ⟨4, true⟩).newText = "a" ∧
      (Layout.format "a\r" ⟨4, true⟩).applyTo "a\r" = encodeUtf8 "a\r".toList ∧
      (Layout.format "a\r" ⟨4, true⟩).applyTo "a\r" ≠
        encodeUtf8 (Layout.format "a\r" ⟨4, true⟩).newText.toList := by
  decide +kernel

end ScriptSense.CommandLine.Format
