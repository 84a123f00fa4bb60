import ScriptSense.Proofs.Cursor.References
import ScriptSense.Proofs.Symbol.Column
import ScriptSense.Proofs.Workspace.Replay
import ScriptSense.Proofs.Workspace.Reports

/-!
# Definitions are references

A definition leads to a place where the cursor finds the name again, and this place is one of the
references of the name. The exceptions are the declarations whose column lies within the keyword.

Every document is live once, and a scan of it goes down its lines. The definitions and references
that a workspace lists are therefore different places.
-/

namespace ScriptSense.Workspace

open Text Script ScriptSense.Symbol

/-- Declarations of different documents differ in the document, those of one document in the
line. -/
theorem pairwise_location_declarations {documents : List (String × String)}
    (nodup : (documents.map Prod.fst).Nodup) :
    (declarations documents).Pairwise fun a b ↦ a.location ≠ b.location := by
  rw [declarations, List.pairwise_flatMap]
  constructor
  · intro document _
    apply (pairwise_line_scan document.1 document.2).imp
    intro a b hline heq
    have hstart := congrArg (·.range.start.line) heq
    exact absurd hstart (Nat.ne_of_lt hline)
  · apply (List.pairwise_map.mp nodup).imp
    intro document other hne a ha b hb heq
    have huri : a.uri = b.uri := congrArg Location.uri heq
    rw [uri_of_mem_scan ha, uri_of_mem_scan hb] at huri
    exact hne huri

theorem nodup_definitions (settings : Settings) (events : List Event) (uri : String)
    (position : Position) : (((empty settings).run events).definitions uri position).Nodup := by
  unfold definitions Cursor.definitions
  split
  · exact List.nodup_nil
  · rename_i target _
    rw [(tracks_run settings events).groups.lookup_eq, List.Nodup, List.pairwise_map]
    exact (pairwise_location_declarations (nodup_live_uris events)).filter _

theorem nodup_references (workspace : Workspace) (uri : String) (position : Position) :
    (workspace.references uri position).Nodup := by
  unfold references Cursor.references
  split
  · exact List.nodup_nil
  · rename_i target _
    exact (Cursor.pairwise_places workspace.documents target.word).imp Location.Precedes.ne

/-- An occurrence has the column that its line gives to its name. -/
structure RecordsColumn (text : String) (occurrence : Occurrence) (line : List Char)
    (reading : Declaration occurrence.kind line) : Prop where
  line_eq : (lines text)[occurrence.line]? = some line
  placesName : PlacesName reading occurrence.name
  column_eq : occurrence.column = nameColumn line occurrence.name

theorem exists_recordsColumn {uri text : String} {occurrence : Occurrence}
    (hmem : occurrence ∈ scan uri text) :
    ∃ line reading, RecordsColumn text occurrence line reading := by
  obtain ⟨line, hline, hshape, hcolumn⟩ := declaration_of_mem_scan hmem
  obtain ⟨reading, hplaces⟩ := exists_placesName hshape
  exact ⟨line, reading, hline, hplaces, hcolumn⟩

/-- The definitions of a name are its declarations in the open documents. Where the column of a
declaration is that of the name, the cursor finds the name there, as a reference of it. -/
structure DefinesReferences (workspace : Workspace) : Prop where
  definitions : ∀ uri position target, target? workspace.documents uri position = some target →
    ∀ location, location ∈ workspace.definitions uri position ↔
      ∃ declaring text, workspace.documents.get? declaring = some text ∧
        ∃ occurrence ∈ scan declaring text, occurrence.name = target.word ∧
          occurrence.location = location
  references : ∀ declaring text, workspace.documents.get? declaring = some text →
    ∀ occurrence ∈ scan declaring text, occurrence.name ∉ insideKeyword occurrence.kind →
      ∀ uri position target, target? workspace.documents uri position = some target →
        target.word = occurrence.name → occurrence.location ∈ workspace.references uri position
  resolves : ∀ declaring text, workspace.documents.get? declaring = some text →
    ∀ occurrence ∈ scan declaring text, occurrence.name ∉ insideKeyword occurrence.kind →
      target? workspace.documents declaring occurrence.range.start =
        some ⟨occurrence.name, occurrence.range⟩

section Declared

variable {workspace : Workspace} {uri text : String} {occurrence : Occurrence}

theorem isUse_of_mem_scan (htext : workspace.documents.get? uri = some text)
    (hmem : occurrence ∈ scan uri text) (hname : occurrence.name ∉ insideKeyword occurrence.kind) :
    Cursor.IsUse workspace.documents occurrence.name occurrence.location := by
  obtain ⟨line, reading, hline, hplaces, hcolumn⟩ := exists_recordsColumn hmem
  have hstart : occurrence.column = width reading.introduction.front :=
    hcolumn.trans (hplaces.atName.mpr hname)
  refine ⟨occurrence.line, reading.introduction.front,
    reading.between ++ occurrence.kind.mark :: reading.after, ⟨?_, ?_⟩, ?_⟩
  · change workspace.documents.line? occurrence.uri occurrence.line = _
    rw [uri_of_mem_scan hmem, Documents.line?, htext, Option.bind_some, hline, ← hplaces.name_eq]
    exact congrArg some reading.introduction.line_eq_front
  · rw [← hplaces.name_eq]
    exact reading.isRun
  · change occurrence.range = _
    rw [Occurrence.range, hstart, width_append]

theorem target?_of_mem_scan (htext : workspace.documents.get? uri = some text)
    (hmem : occurrence ∈ scan uri text) (hname : occurrence.name ∉ insideKeyword occurrence.kind) :
    target? workspace.documents uri occurrence.range.start =
      some ⟨occurrence.name, occurrence.range⟩ := by
  have huse := isUse_of_mem_scan htext hmem hname
  have htarget := Cursor.target?_of_isUse huse (Nat.le_refl _) (Nat.le_add_right _ _)
  change target? workspace.documents occurrence.uri occurrence.range.start = _ at htarget
  rwa [uri_of_mem_scan hmem] at htarget

end Declared

theorem Tracks.mem_definitions_iff {workspace : Workspace} {settings : Settings}
    {documents : List (String × String)} (h : Tracks workspace settings documents) {uri : String}
    {position : Position} {target : Target}
    (htarget : target? workspace.documents uri position = some target) {location : Location} :
    location ∈ workspace.definitions uri position ↔
      ∃ declaring text, workspace.documents.get? declaring = some text ∧
        ∃ occurrence ∈ scan declaring text, occurrence.name = target.word ∧
          occurrence.location = location := by
  have hdefinitions : workspace.definitions uri position =
      ((declarations documents).filter (·.name == target.word)).map Occurrence.location := by
    rw [Workspace.definitions, Cursor.definitions, htarget]
    simp only
    rw [h.groups.lookup_eq]
  simp only [hdefinitions, List.mem_map, List.mem_filter, beq_iff_eq, mem_declarations,
    h.get?_eq_some_iff]
  constructor
  · rintro ⟨occurrence, ⟨⟨⟨declaring, text⟩, hdocument, hscan⟩, hname⟩, hlocation⟩
    exact ⟨declaring, text, hdocument, occurrence, hscan, hname, hlocation⟩
  · rintro ⟨declaring, text, hdocument, occurrence, hscan, hname, hlocation⟩
    exact ⟨occurrence, ⟨⟨(declaring, text), hdocument, hscan⟩, hname⟩, hlocation⟩

theorem Tracks.definesReferences {workspace : Workspace} {settings : Settings}
    {documents : List (String × String)} (h : Tracks workspace settings documents) :
    DefinesReferences workspace where
  definitions uri position target htarget location := h.mem_definitions_iff htarget
  references declaring text htext occurrence hmem hname uri position target htarget hword := by
    rw [Workspace.references, Cursor.references_eq_of_target htarget, Cursor.mem_places_iff, hword]
    exact isUse_of_mem_scan htext hmem hname
  resolves declaring text htext occurrence hmem hname := target?_of_mem_scan htext hmem hname

/-- The column of a declaration is that of the declared name, except for the nine names that can be
read within the keyword. So after any events every other declaration is found as a definition and as
a reference of its name, and the cursor finds the name where it is declared. -/
theorem definitions_are_references (settings : Settings) (events : List Event) :
    (∀ line name kind, shape line = .declaration name kind →
      ∃ reading : Declaration kind line, PlacesName reading name) ∧
    (∀ uri text, ∀ occurrence ∈ scan uri text,
      ∃ line reading, RecordsColumn text occurrence line reading) ∧
    DefinesReferences ((empty settings).run events) :=
  ⟨fun _ _ _ ↦ exists_placesName, fun _ _ _ ↦ exists_recordsColumn,
    (tracks_run settings events).definesReferences⟩

/-- The name `l` is part of the other keyword only, and the column of `et` is the one after `l`. -/
def partNames : Event :=
  ⟨"a.inmu", "fn\u00A0l(x)\nlet et = l", .opened⟩

theorem definitions_are_references_of_parts :
    scan partNames.uri partNames.text =
        [⟨"l", .function, "a.inmu", 0, 3, none⟩, ⟨"et", .variable, "a.inmu", 1, 1, none⟩] ∧
      (∃ reading : Declaration .variable "let et = l".toList, PlacesName reading "et") ∧
      target? ((empty Settings.standard).run [partNames]).documents "a.inmu" ⟨0, 3⟩ =
        some ⟨"l", Range.onLine 0 3 4⟩ ∧
      ⟨"a.inmu", Range.onLine 0 3 4⟩ ∈
        ((empty Settings.standard).run [partNames]).references "a.inmu" ⟨1, 10⟩ := by
  have hscan : scan partNames.uri partNames.text =
      [⟨"l", .function, "a.inmu", 0, 3, none⟩, ⟨"et", .variable, "a.inmu", 1, 1, none⟩] := by
    decide +kernel
  have htext : ((empty Settings.standard).run [partNames]).documents.get? "a.inmu" =
      some partNames.text := by decide +kernel
  have htarget : target? ((empty Settings.standard).run [partNames]).documents "a.inmu" ⟨1, 10⟩ =
      some ⟨"l", Range.onLine 1 9 10⟩ := by decide +kernel
  have hmem : ⟨"l", .function, "a.inmu", 0, 3, none⟩ ∈ scan partNames.uri partNames.text :=
    hscan ▸ List.mem_cons_self
  obtain ⟨hplaces, -, hdefines⟩ := definitions_are_references Settings.standard [partNames]
  exact ⟨hscan, hplaces _ _ _ (by decide +kernel),
    hdefines.resolves _ _ htext _ hmem (by decide),
    hdefines.references _ _ htext _ hmem (by decide) _ _ _ htarget rfl⟩

end ScriptSense.Workspace
