import ScriptSense.Cursor
import ScriptSense.Proofs.Document.Store
import ScriptSense.Proofs.Text.Runs

/-!
# References are the uses of a word

The references of the word under the cursor are the places where it stands as a word of its own in
some open document. They come in the order of the documents, the lines and the columns, and the
cursor may be moved to any of them without a change of the answer.
-/

namespace ScriptSense

open Text

/-- The order of locations: by URI, compared by bytes, then by line, then by column. -/
def Location.Precedes (a b : Location) : Prop :=
  utf8 a.uri < utf8 b.uri ∨ a.uri = b.uri ∧
    (a.range.start.line < b.range.start.line ∨ a.range.start.line = b.range.start.line ∧
      a.range.start.column < b.range.start.column)

theorem Location.Precedes.ne {a b : Location} (h : a.Precedes b) : a ≠ b := by
  rintro rfl
  rcases h with h | ⟨-, h | ⟨-, h⟩⟩
  · exact List.lt_irrefl _ h
  · exact Nat.lt_irrefl _ h
  · exact Nat.lt_irrefl _ h

namespace Cursor

/-- The word stands on a line of an open document, between `before` and `after`, as a word of its
own. -/
structure Stands (documents : Documents) (uri word : String) (number : Nat)
    (before after : List Char) : Prop where
  line : documents.line? uri number = some (before ++ (word.toList ++ after))
  run : IsRun before word.toList after

/-- The location is the one of `word` standing somewhere in an open document. -/
def IsUse (documents : Documents) (word : String) (location : Location) : Prop :=
  ∃ number before after, Stands documents location.uri word number before after ∧
    location.range = Range.onLine number (width before) (width (before ++ word.toList))

/-- The column, taken to the next cut of the line, is at an end of `word` or within it. -/
def Touches (before word after : List Char) (column : Nat) : Prop :=
  byteSize before ≤ offsetAt (before ++ (word ++ after)) column ∧
    offsetAt (before ++ (word ++ after)) column ≤ byteSize (before ++ word)

theorem touches_of_between {before word after : List Char} {column : Nat}
    (hstart : width before ≤ column) (hstop : column ≤ width (before ++ word)) :
    Touches before word after column := by
  have hfirst := offsetAt_mono hstart (before ++ (word ++ after))
  have hlast := offsetAt_mono hstop (before ++ (word ++ after))
  rw [offsetAt_width] at hfirst
  rw [← List.append_assoc, offsetAt_width] at hlast
  rw [List.append_assoc] at hlast
  exact ⟨hfirst, hlast⟩

/-- The word at a column is the one that stands on the line and touches the column. -/
theorem wordAt_eq_some_iff_touches {line : List Char} {column : Nat} {word : Word} :
    wordAt line column = some word ↔ ∃ before after, line = before ++ (word.chars ++ after) ∧
      IsRun before word.chars after ∧ word.offset = byteSize before ∧
      Touches before word.chars after column := by
  rw [wordAt_eq_some_iff, mem_words_iff]
  constructor
  · rintro ⟨⟨before, after, rfl, hrun, hoffset⟩, hle, hge⟩
    refine ⟨before, after, rfl, hrun, hoffset, ?_, ?_⟩
    · rwa [← hoffset]
    · rwa [byteSize_append, ← hoffset]
  · rintro ⟨before, after, rfl, hrun, hoffset, hle, hge⟩
    rw [byteSize_append, ← hoffset] at hge
    rw [← hoffset] at hle
    exact ⟨⟨before, after, rfl, hrun, hoffset⟩, hle, hge⟩

theorem target?_eq_some_iff {documents : Documents} {uri : String} {position : Position}
    {target : Target} : target? documents uri position = some target ↔
      ∃ before after, Stands documents uri target.word position.line before after ∧
        Touches before target.word.toList after position.column ∧
        target.range =
          Range.onLine position.line (width before) (width (before ++ target.word.toList)) := by
  unfold target?
  constructor
  · intro h
    split at h
    · contradiction
    · rename_i line hline
      obtain ⟨word, hword, rfl⟩ := Option.map_eq_some_iff.mp h
      obtain ⟨before, after, rfl, hrun, hoffset, htouches⟩ := wordAt_eq_some_iff_touches.mp hword
      have htext : word.text.toList = word.chars := String.toList_ofList
      refine ⟨before, after, ⟨by rw [hline, htext], by rwa [htext]⟩, by rwa [htext], ?_⟩
      simp only
      rw [htext, hoffset, hrun.ofSlice_eq_onLine]
  · rintro ⟨before, after, ⟨hline, hrun⟩, htouches, hrange⟩
    have hword : wordAt (before ++ (target.word.toList ++ after)) position.column =
        some ⟨byteSize before, target.word.toList⟩ :=
      wordAt_eq_some_iff_touches.mpr ⟨before, after, rfl, hrun, rfl, htouches⟩
    simp only [hline]
    rw [hword, Option.map_some]
    simp only
    rw [hrun.ofSlice_eq_onLine, ← hrange, Word.text, String.ofList_toList]

theorem mem_lineReferences_iff {uri word : String} {line : List Char} {number : Nat}
    {location : Location} : location ∈ lineReferences uri word line number ↔
      location.uri = uri ∧ ∃ before after, line = before ++ (word.toList ++ after) ∧
        IsRun before word.toList after ∧
        location.range = Range.onLine number (width before) (width (before ++ word.toList)) := by
  rw [lineReferences, List.mem_map]
  constructor
  · rintro ⟨offset, hoffset, rfl⟩
    obtain ⟨before, after, rfl, hrun, rfl⟩ := mem_wordMatches_iff.mp hoffset
    exact ⟨rfl, before, after, rfl, hrun, ofSlice_eq_onLine number before word.toList after⟩
  · rintro ⟨rfl, before, after, rfl, hrun, hrange⟩
    refine ⟨byteSize before, mem_wordMatches_iff.mpr ⟨before, after, rfl, hrun, rfl⟩, ?_⟩
    rw [ofSlice_eq_onLine, ← hrange]

theorem mem_textReferences_iff {word : String} {entry : String × String} {location : Location} :
    location ∈ textReferences word entry ↔
      location.uri = entry.1 ∧ ∃ number before after,
        (lines entry.2)[number]? = some (before ++ (word.toList ++ after)) ∧
        IsRun before word.toList after ∧
        location.range = Range.onLine number (width before) (width (before ++ word.toList)) := by
  rw [textReferences, List.mem_flatMap]
  constructor
  · rintro ⟨⟨line, number⟩, hmem, hlocation⟩
    obtain ⟨huri, before, after, rfl, hrun, hrange⟩ := mem_lineReferences_iff.mp hlocation
    exact ⟨huri, number, before, after, List.mk_mem_zipIdx_iff_getElem?.mp hmem, hrun, hrange⟩
  · rintro ⟨huri, number, before, after, hline, hrun, hrange⟩
    exact ⟨(_, number), List.mk_mem_zipIdx_iff_getElem?.mpr hline,
      mem_lineReferences_iff.mpr ⟨huri, before, after, rfl, hrun, hrange⟩⟩

theorem mem_places_iff {documents : Documents} {word : String} {location : Location} :
    location ∈ documents.entries.flatMap (textReferences word) ↔ IsUse documents word location := by
  rw [List.mem_flatMap]
  constructor
  · rintro ⟨⟨uri, text⟩, hentry, hlocation⟩
    obtain ⟨huri, number, before, after, hline, hrun, hrange⟩ := mem_textReferences_iff.mp hlocation
    have htext := (documents.get?_eq_some_iff uri text).mpr hentry
    refine ⟨number, before, after, ⟨?_, hrun⟩, hrange⟩
    rw [huri, Documents.line?, htext, Option.bind_some, hline]
  · rintro ⟨number, before, after, ⟨hline, hrun⟩, hrange⟩
    obtain ⟨text, htext, hline⟩ := Option.bind_eq_some_iff.mp hline
    exact ⟨(location.uri, text), (documents.get?_eq_some_iff _ text).mp htext,
      mem_textReferences_iff.mpr ⟨rfl, number, before, after, hline, hrun, hrange⟩⟩

theorem pairwise_lineReferences (uri word : String) (line : List Char) (number : Nat) :
    (lineReferences uri word line number).Pairwise Location.Precedes := by
  rw [lineReferences, List.pairwise_map]
  apply (pairwise_wordMatches line word).imp_of_mem
  intro offset other hoffset _ hlt
  obtain ⟨before, after, rfl, hrun, rfl⟩ := mem_wordMatches_iff.mp hoffset
  exact .inr ⟨rfl, .inr ⟨rfl, columnAt_byteSize_lt (by simp [hrun.ne_nil]) hlt⟩⟩

theorem pairwise_textReferences (word : String) (entry : String × String) :
    (textReferences word entry).Pairwise Location.Precedes := by
  rw [textReferences, List.pairwise_flatMap]
  refine ⟨fun numbered _ ↦ pairwise_lineReferences entry.1 word numbered.1 numbered.2, ?_⟩
  have hnumbers : ((lines entry.2).zipIdx.map Prod.snd).Pairwise (· < ·) := by
    rw [List.zipIdx_map_snd]
    exact List.pairwise_lt_range'
  apply (List.pairwise_map.mp hnumbers).imp
  intro numbered later hlt location hlocation other hother
  obtain ⟨huri, _, _, _, _, hrange⟩ := mem_lineReferences_iff.mp hlocation
  obtain ⟨huri', _, _, _, _, hrange'⟩ := mem_lineReferences_iff.mp hother
  refine .inr ⟨huri.trans huri'.symm, .inl ?_⟩
  rw [hrange, hrange']
  exact hlt

theorem pairwise_places (documents : Documents) (word : String) :
    (documents.entries.flatMap (textReferences word)).Pairwise Location.Precedes := by
  rw [List.pairwise_flatMap]
  refine ⟨fun entry _ ↦ pairwise_textReferences word entry, ?_⟩
  apply documents.ordered.imp
  intro entry later hlt location hlocation other hother
  left
  rw [(mem_textReferences_iff.mp hlocation).1, (mem_textReferences_iff.mp hother).1]
  exact utf8_lt_iff.mpr hlt

theorem references_eq_of_target {documents : Documents} {uri : String} {position : Position}
    {target : Target} (h : target? documents uri position = some target) :
    references documents uri position =
      documents.entries.flatMap (textReferences target.word) := by
  rw [references, h]

theorem isUse_of_target {documents : Documents} {uri : String} {position : Position}
    {target : Target} (h : target? documents uri position = some target) :
    IsUse documents target.word ⟨uri, target.range⟩ := by
  obtain ⟨before, after, hstands, -, hrange⟩ := target?_eq_some_iff.mp h
  exact ⟨position.line, before, after, hstands, hrange⟩

/-- The cursor finds the word at every column of a use, its end included. -/
theorem target?_of_isUse {documents : Documents} {word : String} {location : Location}
    (h : IsUse documents word location) {column : Nat}
    (hstart : location.range.start.column ≤ column) (hstop : column ≤ location.range.stop.column) :
    target? documents location.uri ⟨location.range.start.line, column⟩ =
      some ⟨word, location.range⟩ := by
  obtain ⟨number, before, after, hstands, hrange⟩ := h
  rw [hrange] at hstart hstop ⊢
  exact target?_eq_some_iff.mpr ⟨before, after, hstands, touches_of_between hstart hstop, rfl⟩

theorem references_eq_nil_iff {documents : Documents} {uri : String} {position : Position} :
    references documents uri position = [] ↔ ¬∃ word before after,
      Stands documents uri word position.line before after ∧
        Touches before word.toList after position.column := by
  constructor
  · rintro hnil ⟨word, before, after, hstands, htouches⟩
    have htarget : target? documents uri position = some ⟨word,
        Range.onLine position.line (width before) (width (before ++ word.toList))⟩ :=
      target?_eq_some_iff.mpr ⟨before, after, hstands, htouches, rfl⟩
    have huse := mem_places_iff.mpr (isUse_of_target htarget)
    rw [← references_eq_of_target htarget, hnil] at huse
    exact absurd huse List.not_mem_nil
  · intro hnone
    rw [references]
    cases htarget : target? documents uri position with
    | none => rfl
    | some target =>
      obtain ⟨before, after, hstands, htouches, -⟩ := target?_eq_some_iff.mp htarget
      exact absurd ⟨target.word, before, after, hstands, htouches⟩ hnone

/-- The references of a word under the cursor are its uses in all open documents, in order and each
once; the cursor may stand at any of them and find the same. Without a word under the cursor there
are none. -/
theorem references_are_uses (documents : Documents) (uri : String) (position : Position) :
    (∀ target, target? documents uri position = some target →
      ⟨uri, target.range⟩ ∈ references documents uri position ∧
      (∀ location, location ∈ references documents uri position ↔
        IsUse documents target.word location) ∧
      (references documents uri position).Pairwise Location.Precedes ∧
      (references documents uri position).Nodup ∧
      ∀ location ∈ references documents uri position, ∀ column,
        location.range.start.column ≤ column → column ≤ location.range.stop.column →
          references documents location.uri ⟨location.range.start.line, column⟩ =
            references documents uri position) ∧
    (references documents uri position = [] ↔ ¬∃ word before after,
      Stands documents uri word position.line before after ∧
        Touches before word.toList after position.column) := by
  refine ⟨?_, references_eq_nil_iff⟩
  intro target htarget
  have hordered := pairwise_places documents target.word
  rw [references_eq_of_target htarget]
  refine ⟨mem_places_iff.mpr (isUse_of_target htarget), fun location ↦ mem_places_iff, hordered,
    hordered.imp Location.Precedes.ne, ?_⟩
  intro location hlocation column hstart hstop
  have hmoved := target?_of_isUse (mem_places_iff.mp hlocation) hstart hstop
  rw [references_eq_of_target hmoved]

/-- The word under the cursor stands twice in the other document, at the end of its line too. -/
theorem references_are_uses_of_count :
    target? ((Documents.empty.put "b.inmu" "é count\r\n x").put "a.inmu" "count+count") "b.inmu"
        ⟨0, 2⟩ = some ⟨"count", Range.onLine 0 2 7⟩ ∧
      ⟨"a.inmu", Range.onLine 0 6 11⟩ ∈ references
        ((Documents.empty.put "b.inmu" "é count\r\n x").put "a.inmu" "count+count") "b.inmu"
        ⟨0, 2⟩ ∧
      references ((Documents.empty.put "b.inmu" "é count\r\n x").put "a.inmu" "count+count")
          "a.inmu" ⟨0, 11⟩ =
        references ((Documents.empty.put "b.inmu" "é count\r\n x").put "a.inmu" "count+count")
          "b.inmu" ⟨0, 2⟩ := by
  have h : target? ((Documents.empty.put "b.inmu" "é count\r\n x").put "a.inmu" "count+count")
      "b.inmu" ⟨0, 2⟩ = some ⟨"count", Range.onLine 0 2 7⟩ := by decide
  obtain ⟨-, hmem, -, -, hclosed⟩ := (references_are_uses _ _ _).1 _ h
  have huse : ⟨"a.inmu", Range.onLine 0 6 11⟩ ∈ references
      ((Documents.empty.put "b.inmu" "é count\r\n x").put "a.inmu" "count+count") "b.inmu"
      ⟨0, 2⟩ := by
    exact (hmem _).mpr ⟨0, "count+".toList, [], ⟨by decide, by decide⟩, rfl⟩
  exact ⟨h, huse, hclosed _ huse 11 (by decide) (by decide)⟩

end Cursor

end ScriptSense
