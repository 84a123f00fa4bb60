import ScriptSense.CommandLine.Command
import ScriptSense.Proofs.Files.Discovery
import ScriptSense.Proofs.Files.Place
import ScriptSense.Proofs.Uri.File
import ScriptSense.Proofs.Workspace.Ranges

/-!
# URIs are faithful names of files

The URI of a script is its own normal form, and the path that is shown for it is the path of the
script. It is therefore the same text in the workspace, in a report, in a location and in the answer
to an editor: whoever receives it can ask about the document with it.
-/

namespace ScriptSense

open Files

/-- A script that exists and is at its canonical path, which has no drive letters in it. -/
structure Files.Tree.IsSource (files : Tree) (path : String) : Prop where
  file : files.isFile path
  canonical : ∃ place, files.resolve path = .ok place ∧ path = absolutePath place
  script : '.' :: scriptExtension.toList <:+ path.toList
  drives : ∀ name ∈ names path, Uri.isDrive name.toList = false

/-- The URI is a name of the file that nothing changes and that can be read back. -/
structure Files.Tree.FaithfulName (files : Tree) (uri path : String) : Prop where
  parses : ∃ parsed, Uri.parse uri = .ok parsed ∧ parsed.text = uri
  normal : Uri.normalize uri = .ok uri
  shown : CommandLine.Query.displayUri uri = path
  only : ∀ other, files.IsSource other → files.uri other = uri → other = path

namespace Workspace

/-- The location is in an answer of the workspace. -/
def Locates (workspace : Workspace) (location : Location) : Prop :=
  (∃ uri position, location ∈ workspace.definitions uri position ∨
    location ∈ workspace.references uri position) ∨
  ∃ uri, ∃ item ∈ workspace.outline uri, item.location = location

/-- An editor is told the URI under which the document is held: with each report about it, after
which the document has the text that was reported on unless it was closed, and with each location
in it. -/
structure Keeps (workspace : Workspace) (uri : String) : Prop where
  reports : ∀ event : Event, event.uri = uri → Editor.report (workspace.apply event).2 =
    .ok (.object [("uri", .string uri),
      ("diagnostics", .array ((workspace.apply event).2.diagnostics.map Editor.diagnostic))])
  holds : ∀ event : Event, event.uri = uri → event.kind ≠ .closed →
    (workspace.apply event).1.documents.get? uri = some event.text
  locations : ∀ location, workspace.Locates location → location.uri = uri →
    workspace.documents.contains uri ∧ Editor.location location =
      .ok (.object [("uri", .string uri), ("range", Editor.range location.range)])

theorem Accurate.contains_of_locates {workspace : Workspace} (h : workspace.Accurate)
    {location : Location} (hlocates : workspace.Locates location) :
    workspace.documents.contains location.uri := by
  have hopen {covered : List Char} (hreads : workspace.Reads location covered) :
      workspace.documents.contains location.uri := by
    obtain ⟨text, htext, -⟩ := hreads
    exact Option.isSome_of_eq_some htext
  rcases hlocates with ⟨uri, position, hdefinition | hreference⟩ | ⟨uri, item, hitem, rfl⟩
  · obtain ⟨target, -, hreads⟩ := h.definitions uri position location hdefinition
    exact hopen hreads
  · obtain ⟨target, -, hreads⟩ := h.references uri position location hreference
    exact hopen hreads
  · exact hopen (h.outline uri item hitem).2

/-- A URI in its normal form is told as it is. -/
theorem keeps_run (settings : Settings) (events : List Event) {uri : String}
    (h : Uri.normalize uri = .ok uri) : ((empty settings).run events).Keeps uri where
  reports event hevent := by
    rw [Editor.report, uri_apply, hevent, h]
    rfl
  holds event hevent hkind := by
    rw [apply_of_ne_closed _ hkind, ← hevent]
    exact Documents.get?_put_self _ event.uri event.text
  locations location hlocates hlocation := by
    have hcontains := (tracks_run settings events).accurate.contains_of_locates hlocates
    refine ⟨hlocation ▸ hcontains, ?_⟩
    rw [Editor.location, hlocation, h]
    rfl

end Workspace

theorem CommandLine.Query.displayUri_fileUri {place : List String} (hne : place ≠ [])
    (hname : ∀ name ∈ place, isName name) (hdrive : ∀ name ∈ place, Uri.isDrive name.toList = false)
    (hscript : scriptExtension.toList <:+ (absolutePath place).toList) :
    displayUri (fileUri place) = absolutePath place := by
  have hpath : (Uri.parse (fileUri place)).toOption.bind Uri.filePath? =
      some (Text.encodeUtf8 (absolutePath place).toList) := by
    rw [Uri.parse_fileUri hne hname hdrive]
    exact Uri.filePath?_ofNames hne hscript
  rw [displayUri, hpath]
  simp

namespace Files.Tree.IsSource

variable {files : Tree} {path : String}

theorem exists_place (h : files.IsSource path) :
    ∃ place, files.uri path = fileUri place ∧ path = absolutePath place ∧ place ≠ [] ∧
      (∀ name ∈ place, isName name) ∧ ∀ name ∈ place, Uri.isDrive name.toList = false := by
  obtain ⟨place, hresolve, hpath⟩ := h.canonical
  have hname : ∀ name ∈ place, isName name :=
    isName_of_resolve_absolute (hpath ▸ isAbsolute_absolutePath place) hresolve
  refine ⟨place, uri_eq_fileUri hresolve, hpath, ?_, hname, ?_⟩
  · rintro rfl
    have hroot := h.script
    rw [hpath] at hroot
    exact absurd hroot (by decide)
  · have hdrive := h.drives
    rwa [hpath, names_absolutePath hname] at hdrive

theorem eq_of_uri_eq {other : String} (h : files.IsSource path) (hother : files.IsSource other)
    (huri : files.uri other = files.uri path) : other = path := by
  obtain ⟨place, hplace, hpath, -, hname, -⟩ := h.exists_place
  obtain ⟨otherPlace, hotherPlace, hotherPath, -, hotherName, -⟩ := hother.exists_place
  rw [hplace, hotherPlace] at huri
  have hsame := Uri.fileUri_injective (fun name hmem ↦ (isName_iff.mp (hotherName name hmem)).1)
    (fun name hmem ↦ (isName_iff.mp (hname name hmem)).1) huri
  rw [hotherPath, hsame, hpath]

theorem faithfulName (h : files.IsSource path) : files.FaithfulName (files.uri path) path := by
  obtain ⟨place, hplace, hpath, hne, hname, hdrive⟩ := h.exists_place
  have hextension : scriptExtension.toList <:+ '.' :: scriptExtension.toList := by decide
  have hscript := hpath ▸ hextension.trans h.script
  refine ⟨?parses, ?normal, ?shown, fun other hother ↦ h.eq_of_uri_eq hother⟩
  case parses =>
    rw [hplace]
    exact ⟨Uri.ofNames place, Uri.parse_fileUri hne hname hdrive, Uri.text_ofNames hne⟩
  case normal =>
    rw [hplace]
    exact Uri.normalize_fileUri hne hname hdrive
  case shown =>
    rw [hplace, CommandLine.Query.displayUri_fileUri hne hname hdrive hscript, hpath]

end Files.Tree.IsSource

namespace CommandLine

variable {files : Tree} {path : String}

/-- The URI of a script parses, is its own normal form, and is shown as the path of the script, and
no other script has it. Whatever happened before, opening the script by any of its paths is an event
about that URI, and reports and locations tell an editor that URI and no other. -/
theorem uris_are_faithful (h : files.IsSource path) : files.FaithfulName (files.uri path) path ∧
    ∀ settings events, ((Workspace.empty settings).run events).Keeps (files.uri path) ∧
      ∀ spelling text, files.resolve spelling = files.resolve path →
        files.readText spelling = .ok text →
        ∃ next report, openFile files ((Workspace.empty settings).run events) spelling =
            .ok (next, ⟨spelling, files.uri path, report⟩) ∧
          ((Workspace.empty settings).run events).apply ⟨files.uri path, text, .opened⟩ =
            (next, report) := by
  have hfaithful := h.faithfulName
  refine ⟨hfaithful, fun settings events ↦
    ⟨Workspace.keeps_run settings events hfaithful.normal, ?_⟩⟩
  intro spelling text hresolve htext
  obtain ⟨place, hplace, -⟩ := h.canonical
  have huri : files.uri spelling = files.uri path := by
    rw [Tree.uri_eq_fileUri hplace, Tree.uri_eq_fileUri (hresolve.trans hplace)]
  simp only [openFile, htext, huri]
  exact ⟨_, _, rfl, rfl⟩

/-- A script whose path has a percent sign, a space, a hash and a letter beyond ASCII in it, seen
from its directory. -/
def oddNames : Tree :=
  ⟨.directory [("100%", .directory
    [("é #.inmu", .file (Text.encodeUtf8 "let total = 1".toList))])], ["100%"]⟩

theorem isSource_oddNames : oddNames.IsSource "/100%/é #.inmu" where
  file := by decide +kernel
  canonical := ⟨["100%", "é #.inmu"], by decide +kernel, by decide +kernel⟩
  script := by decide +kernel
  drives := by decide +kernel

/-- The script has the same URI when it is opened from its directory. -/
theorem uris_are_faithful_of_oddNames :
    oddNames.IsSource "/100%/é #.inmu" ∧
      oddNames.FaithfulName "file:///100%25/%C3%A9%20%23.inmu" "/100%/é #.inmu" ∧
      ((Workspace.empty Settings.standard).run []).Keeps "file:///100%25/%C3%A9%20%23.inmu" ∧
      ∃ next report, openFile oddNames ((Workspace.empty Settings.standard).run [])
          "../100%/./é #.inmu" =
        .ok (next, ⟨"../100%/./é #.inmu", "file:///100%25/%C3%A9%20%23.inmu", report⟩) := by
  have huri : oddNames.uri "/100%/é #.inmu" = "file:///100%25/%C3%A9%20%23.inmu" := by
    decide +kernel
  have hresolve : oddNames.resolve "../100%/./é #.inmu" = oddNames.resolve "/100%/é #.inmu" := by
    decide +kernel
  have htext : oddNames.readText "../100%/./é #.inmu" = .ok "let total = 1" := by decide +kernel
  obtain ⟨hfaithful, hruns⟩ := uris_are_faithful isSource_oddNames
  obtain ⟨hkeeps, hopens⟩ := hruns Settings.standard []
  obtain ⟨next, report, hopened, -⟩ := hopens _ _ hresolve htext
  rw [huri] at hfaithful hkeeps hopened
  exact ⟨isSource_oddNames, hfaithful, hkeeps, next, report, hopened⟩

end CommandLine

end ScriptSense
