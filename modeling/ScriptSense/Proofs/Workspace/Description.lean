import ScriptSense.Proofs.Cursor.References
import ScriptSense.Proofs.Workspace.Agreement
import ScriptSense.Proofs.Workspace.Live

/-!
# What is told about the word under the cursor

A word is described by one declaration, and there may be many of it. The index keeps them in the
order in which their documents were last opened or changed, and on a document from the lowest line
to the highest, so the first of them in the document, or the first of all, is the one that is meant
to be picked.
-/

namespace ScriptSense

open Text Script

namespace Symbol

/-- The occurrence is the declaration of the name on the lowest line that declares it. -/
structure IsFirst (uri text name : String) (occurrence : Occurrence) : Prop where
  mem : occurrence ∈ scan uri text
  name_eq : occurrence.name = name
  le_line : ∀ other ∈ scan uri text, other.name = name → occurrence.line ≤ other.line

variable {uri text name : String} {occurrence : Occurrence}

theorem isFirst_of_find?_scan (h : (scan uri text).find? (·.name == name) = some occurrence) :
    IsFirst uri text name occurrence where
  mem := List.mem_of_find?_eq_some h
  name_eq := by simpa using List.find?_some h
  le_line other hother hname := by
    obtain ⟨-, above, below, hsplit, habove⟩ := List.find?_eq_some_iff_append.mp h
    have hordered := pairwise_line_scan uri text
    rw [hsplit] at hother hordered
    rcases List.mem_append.mp hother with hother | hother
    · simpa [hname] using habove other hother
    · rcases List.mem_cons.mp hother with rfl | hother
      · exact Nat.le_refl _
      · exact Nat.le_of_lt (List.rel_of_pairwise_cons (List.pairwise_append.mp hordered).2.1 hother)

theorem find?_scan_eq_none_iff :
    (scan uri text).find? (·.name == name) = none ↔ declaredBy uri text name = false := by
  rw [declaredBy, List.find?_eq_none, List.any_eq_false]

theorem find?_scan_eq_some_iff :
    (scan uri text).find? (·.name == name) = some occurrence ↔
      IsFirst uri text name occurrence := by
  refine ⟨isFirst_of_find?_scan, fun h ↦ ?_⟩
  cases hfind : (scan uri text).find? (·.name == name) with
  | none =>
    have hnot := List.find?_eq_none.mp hfind occurrence h.mem
    simp [h.name_eq] at hnot
  | some found =>
    have hfound := isFirst_of_find?_scan hfind
    have hline : found.line = occurrence.line := Nat.le_antisymm
      (hfound.le_line occurrence h.mem h.name_eq) (h.le_line found hfound.mem hfound.name_eq)
    rw [eq_of_line_eq (pairwise_line_scan uri text) hfound.mem h.mem hline]

theorem IsFirst.declaredBy (h : IsFirst uri text name occurrence) : declaredBy uri text name :=
  List.any_eq_true.mpr ⟨occurrence, h.mem, beq_iff_eq.mpr h.name_eq⟩

end Symbol

theorem Script.reserved?_eq_some_iff {name : String} {reserved : Reserved} :
    reserved? name = some reserved ↔ reserved ∈ reservedNames ∧ reserved.name = name := by
  constructor
  · intro h
    exact ⟨List.mem_of_find?_eq_some h, by simpa using List.find?_some h⟩
  · rintro ⟨hmem, rfl⟩
    cases hfind : reserved? reserved.name with
    | none =>
      have hnot := List.find?_eq_none.mp hfind reserved hmem
      simp at hnot
    | some found =>
      have hname : found.name = reserved.name := by simpa using List.find?_some hfind
      rw [List.inj_on_of_nodup_map nodup_reservedNames (List.mem_of_find?_eq_some hfind) hmem hname]

namespace Cursor

open ScriptSense.Symbol

variable {index : Index} {documents : Documents} {uri : String} {position : Position}

theorem hover_of_touches {word : String} {before after : List Char}
    (hstands : Stands documents uri word position.line before after)
    (htouches : Touches before word.toList after position.column) :
    hover index documents uri position = (describe? index word uri).map fun contents ↦
      ⟨contents,
        some (Range.onLine position.line (width before) (width (before ++ word.toList)))⟩ := by
  have htarget : target? documents uri position = some ⟨word,
      Range.onLine position.line (width before) (width (before ++ word.toList))⟩ :=
    target?_eq_some_iff.mpr ⟨before, after, hstands, htouches, rfl⟩
  rw [hover, htarget]

theorem hover_of_not_touches
    (hnone : ¬∃ word before after, Stands documents uri word position.line before after ∧
      Touches before word.toList after position.column) :
    hover index documents uri position = none := by
  rw [hover]
  cases htarget : target? documents uri position with
  | none => rfl
  | some target =>
    obtain ⟨before, after, hstands, htouches, -⟩ := target?_eq_some_iff.mp htarget
    exact absurd ⟨target.word, before, after, hstands, htouches⟩ hnone

theorem hover_eq_some_iff {answer : Hover} : hover index documents uri position = some answer ↔
    ∃ word before after, Stands documents uri word position.line before after ∧
      Touches before word.toList after position.column ∧
      answer.range =
        some (Range.onLine position.line (width before) (width (before ++ word.toList))) ∧
      describe? index word uri = some answer.contents := by
  constructor
  · intro h
    by_cases htouched : ∃ word before after, Stands documents uri word position.line before after ∧
        Touches before word.toList after position.column
    · obtain ⟨word, before, after, hstands, htouches⟩ := htouched
      rw [hover_of_touches hstands htouches] at h
      obtain ⟨contents, hcontents, rfl⟩ := Option.map_eq_some_iff.mp h
      exact ⟨word, before, after, hstands, htouches, rfl, hcontents⟩
    · rw [hover_of_not_touches htouched] at h
      contradiction
  · rintro ⟨word, before, after, hstands, htouches, hrange, hcontents⟩
    rw [hover_of_touches hstands htouches, hcontents, Option.map_some, ← hrange]

theorem hover_eq_none_iff : hover index documents uri position = none ↔
    (¬∃ word before after, Stands documents uri word position.line before after ∧
      Touches before word.toList after position.column) ∨
    ∃ word before after, Stands documents uri word position.line before after ∧
      Touches before word.toList after position.column ∧ describe? index word uri = none := by
  constructor
  · intro h
    rw [or_iff_not_imp_left, not_not]
    rintro ⟨word, before, after, hstands, htouches⟩
    rw [hover_of_touches hstands htouches, Option.map_eq_none_iff] at h
    exact ⟨word, before, after, hstands, htouches, h⟩
  · rintro (hnone | ⟨word, before, after, hstands, htouches, hnone⟩)
    · exact hover_of_not_touches hnone
    · rw [hover_of_touches hstands htouches, hnone, Option.map_none]

/-- The hover stays the same at every column of its range. -/
theorem hover_eq_of_mem_range {answer : Hover} {range : Range}
    (h : hover index documents uri position = some answer) (hrange : answer.range = some range)
    {column : Nat} (hstart : range.start.column ≤ column) (hstop : column ≤ range.stop.column) :
    hover index documents uri ⟨position.line, column⟩ = some answer := by
  obtain ⟨word, before, after, hstands, -, hfound, hcontents⟩ := hover_eq_some_iff.mp h
  obtain rfl := Option.some.inj (hrange.symm.trans hfound)
  exact hover_eq_some_iff.mpr
    ⟨word, before, after, hstands, touches_of_between hstart hstop, hfound, hcontents⟩

end Cursor

namespace Workspace

open ScriptSense.Symbol Cursor

/-- The declaration that describes a name to a reader of the document: the first one of the document
itself, or if this does not declare the name, the first one of the document that has not been opened
or changed for the longest time of those that do. -/
inductive Describes (events : List Event) (uri name : String) (occurrence : Occurrence) : Prop
  | own {text : String} {later : List Event} (hopen : HasText events uri text later)
    (hfirst : IsFirst uri text name occurrence)
  | oldest {source text : String} {later : List Event}
    (hnotOwn : ∀ text later, HasText events uri text later → declaredBy uri text name = false)
    (hopen : HasText events source text later)
    (holdest : ∀ other otherText otherLater, HasText events other otherText otherLater →
      declaredBy other otherText name → otherLater.length ≤ later.length)
    (hfirst : IsFirst source text name occurrence)

/-- The text names the kind of the declaration and its name in bold. In a paragraph of its own it
gives the documentation, or if there is none the number of the line, counted from one. -/
inductive Tells (occurrence : Occurrence) (contents : String) : Prop
  | documented {word doc : String} (hword : occurrence.kind.IsCalled word)
    (hdoc : occurrence.doc = some doc)
    (hcontents : contents = "**(" ++ word ++ ") " ++ occurrence.name ++ "**\n\n" ++ doc)
  | undocumented {word : String} (hword : occurrence.kind.IsCalled word)
    (hdoc : occurrence.doc = none)
    (hcontents : contents = "**(" ++ word ++ ") " ++ occurrence.name ++ "**\n\n" ++
      ("Defined at line " ++ Nat.repr (occurrence.line + 1)))

theorem tells_iff {occurrence : Occurrence} {contents : String} :
    Tells occurrence contents ↔ contents = occurrence.describe := by
  constructor
  · rintro (⟨hword, hdoc, rfl⟩ | ⟨hword, hdoc, rfl⟩)
    all_goals rw [Occurrence.describe, hdoc, SymbolKind.isCalled_iff.mp hword]
  · rintro rfl
    have hword : occurrence.kind.IsCalled occurrence.kind.name := SymbolKind.isCalled_iff.mpr rfl
    rw [Occurrence.describe]
    cases hdoc : occurrence.doc with
    | some doc => exact .documented hword hdoc rfl
    | none => exact .undocumented hword hdoc rfl

/-- What is told about a word: the description of a reserved name, or the text that tells of the
declaration that describes the word. -/
inductive Explains (events : List Event) (uri word contents : String) : Prop
  | reserved {entry : Reserved} (hmem : entry ∈ reservedNames) (hname : entry.name = word)
    (hcontents : contents = entry.description)
  | declared {occurrence : Occurrence} (hreserved : isReserved word = false)
    (hdescribes : Describes events uri word occurrence)
    (hcontents : Tells occurrence contents)

section Lookup

variable {workspace : Workspace} {settings : Settings} {events : List Event} {uri name : String}
  {occurrence : Occurrence}

theorem find?_lookup_eq (h : Tracks workspace settings (live events)) :
    (workspace.index.lookup name).find? (·.uri == uri) =
      (declarations ((live events).filter (·.1 == uri))).find? (·.name == name) := by
  rw [h.groups.lookup_eq, ← List.head?_filter, List.filter_comm, filter_declarations (· == uri),
    List.head?_filter]

theorem find?_lookup_of_hasText (h : Tracks workspace settings (live events)) {text : String}
    {later : List Event} (hopen : HasText events uri text later) :
    (workspace.index.lookup name).find? (·.uri == uri) =
      (scan uri text).find? (·.name == name) := by
  have hmem := mem_live_iff_hasText.mpr ⟨later, hopen⟩
  rw [find?_lookup_eq h, filter_uri_eq (nodup_live_uris events) hmem, declarations,
    List.flatMap_singleton]

theorem find?_lookup_of_not_hasText (h : Tracks workspace settings (live events))
    (hclosed : ∀ text later, ¬HasText events uri text later) :
    (workspace.index.lookup name).find? (·.uri == uri) = none := by
  have hnone : (live events).filter (·.1 == uri) = [] := by
    rw [List.filter_eq_nil_iff]
    rintro ⟨other, text⟩ hmem heq
    obtain rfl : other = uri := beq_iff_eq.mp heq
    obtain ⟨later, hopen⟩ := mem_live_iff_hasText.mp hmem
    exact hclosed text later hopen
  rw [find?_lookup_eq h, hnone]
  rfl

theorem find?_lookup_eq_some_iff (h : Tracks workspace settings (live events)) :
    (workspace.index.lookup name).find? (·.uri == uri) = some occurrence ↔
      ∃ text later, HasText events uri text later ∧ IsFirst uri text name occurrence := by
  constructor
  · intro hfind
    by_cases hclosed : ∀ text later, ¬HasText events uri text later
    · rw [find?_lookup_of_not_hasText h hclosed] at hfind
      contradiction
    · push Not at hclosed
      obtain ⟨text, later, hopen⟩ := hclosed
      rw [find?_lookup_of_hasText h hopen, find?_scan_eq_some_iff] at hfind
      exact ⟨text, later, hopen, hfind⟩
  · rintro ⟨text, later, hopen, hfirst⟩
    rw [find?_lookup_of_hasText h hopen]
    exact find?_scan_eq_some_iff.mpr hfirst

theorem find?_lookup_eq_none_iff (h : Tracks workspace settings (live events)) :
    (workspace.index.lookup name).find? (·.uri == uri) = none ↔
      ∀ text later, HasText events uri text later → declaredBy uri text name = false := by
  constructor
  · intro hfind text later hopen
    rwa [find?_lookup_of_hasText h hopen, find?_scan_eq_none_iff] at hfind
  · intro hnot
    by_cases hclosed : ∀ text later, ¬HasText events uri text later
    · exact find?_lookup_of_not_hasText h hclosed
    · push Not at hclosed
      obtain ⟨text, later, hopen⟩ := hclosed
      rw [find?_lookup_of_hasText h hopen, find?_scan_eq_none_iff]
      exact hnot text later hopen

theorem head?_lookup_eq (h : Tracks workspace settings (live events)) :
    (workspace.index.lookup name).head? =
      (live events).findSome? fun document ↦
        (scan document.1 document.2).find? (·.name == name) := by
  rw [h.groups.lookup_eq, List.head?_filter, declarations, List.find?_flatMap]

theorem head?_lookup_eq_some_iff (h : Tracks workspace settings (live events)) :
    (workspace.index.lookup name).head? = some occurrence ↔ ∃ source text later,
      HasText events source text later ∧ (∀ other otherText otherLater,
        HasText events other otherText otherLater → declaredBy other otherText name →
          otherLater.length ≤ later.length) ∧ IsFirst source text name occurrence := by
  have hfirst : (workspace.index.lookup name).head? = some occurrence ↔
      ∃ document, (live events).find? (fun document ↦ declaredBy document.1 document.2 name) =
        some document ∧ IsFirst document.1 document.2 name occurrence := by
    rw [head?_lookup_eq h, List.findSome?_eq_some_iff]
    simp only [find?_scan_eq_some_iff, find?_scan_eq_none_iff]
    constructor
    · rintro ⟨front, document, back, hlive, hfirst, hfront⟩
      refine ⟨document, List.find?_eq_some_iff_append.mpr ?_, hfirst⟩
      exact ⟨hfirst.declaredBy, front, back, hlive,
        fun other hother ↦ by simp [hfront other hother]⟩
    · rintro ⟨document, hfind, hfirst⟩
      obtain ⟨-, front, back, hlive, hfront⟩ := List.find?_eq_some_iff_append.mp hfind
      exact ⟨front, document, back, hlive, hfirst,
        fun other hother ↦ by simpa using hfront other hother⟩
  rw [hfirst]
  constructor
  · rintro ⟨⟨source, text⟩, hfind, hfirst⟩
    obtain ⟨-, later, hopen, holdest⟩ := find?_live_eq_some_iff.mp hfind
    exact ⟨source, text, later, hopen, holdest, hfirst⟩
  · rintro ⟨source, text, later, hopen, holdest, hfirst⟩
    exact ⟨(source, text), find?_live_eq_some_iff.mpr ⟨hfirst.declaredBy, later, hopen, holdest⟩,
      hfirst⟩

theorem head?_lookup_eq_none_iff (h : Tracks workspace settings (live events)) :
    (workspace.index.lookup name).head? = none ↔ ∀ other text later,
      HasText events other text later → declaredBy other text name = false := by
  rw [head?_lookup_eq h, List.findSome?_eq_none_iff]
  simp only [find?_scan_eq_none_iff, Prod.forall, mem_live_iff_hasText]
  exact ⟨fun hnot other text later hopen ↦ hnot other text ⟨later, hopen⟩,
    fun hnot other text ⟨later, hopen⟩ ↦ hnot other text later hopen⟩

theorem bestOccurrence?_eq_some_iff (h : Tracks workspace settings (live events)) :
    bestOccurrence? workspace.index name uri = some occurrence ↔
      Describes events uri name occurrence := by
  rw [bestOccurrence?, Option.or_eq_some_iff, find?_lookup_eq_some_iff h,
    find?_lookup_eq_none_iff h, head?_lookup_eq_some_iff h]
  constructor
  · rintro (⟨text, later, hopen, hfirst⟩ | ⟨hnotOwn, source, text, later, hopen, holdest, hfirst⟩)
    · exact .own hopen hfirst
    · exact .oldest hnotOwn hopen holdest hfirst
  · rintro (⟨hopen, hfirst⟩ | ⟨hnotOwn, hopen, holdest, hfirst⟩)
    · exact .inl ⟨_, _, hopen, hfirst⟩
    · exact .inr ⟨hnotOwn, _, _, _, hopen, holdest, hfirst⟩

theorem bestOccurrence?_eq_none_iff (h : Tracks workspace settings (live events)) :
    bestOccurrence? workspace.index name uri = none ↔ ∀ other text later,
      HasText events other text later → declaredBy other text name = false := by
  rw [bestOccurrence?, Option.or_eq_none_iff, find?_lookup_eq_none_iff h,
    head?_lookup_eq_none_iff h]
  exact and_iff_right_of_imp fun hnot ↦ hnot uri

theorem describe?_eq_some_iff (h : Tracks workspace settings (live events)) {contents : String} :
    describe? workspace.index name uri = some contents ↔ Explains events uri name contents := by
  unfold describe?
  cases hreserved : reserved? name with
  | some entry =>
    obtain ⟨hmem, hname⟩ := reserved?_eq_some_iff.mp hreserved
    simp only [Option.some_inj]
    constructor
    · rintro rfl
      exact .reserved hmem hname rfl
    · rintro (⟨hother, hotherName, rfl⟩ | ⟨hnot, -, -⟩)
      · rw [reserved?_eq_some_iff.mpr ⟨hother, hotherName⟩, Option.some_inj] at hreserved
        rw [hreserved]
      · rw [isReserved, hreserved] at hnot
        contradiction
  | none =>
    simp only [Option.map_eq_some_iff, bestOccurrence?_eq_some_iff h]
    constructor
    · rintro ⟨occurrence, hdescribes, rfl⟩
      exact .declared (by rw [isReserved, hreserved]; rfl) hdescribes (tells_iff.mpr rfl)
    · rintro (⟨hmem, hname, -⟩ | ⟨-, hdescribes, htells⟩)
      · rw [reserved?_eq_some_iff.mpr ⟨hmem, hname⟩] at hreserved
        contradiction
      · exact ⟨_, hdescribes, (tells_iff.mp htells).symm⟩

theorem describe?_eq_none_iff (h : Tracks workspace settings (live events)) :
    describe? workspace.index name uri = none ↔ isReserved name = false ∧
      ∀ other text later, HasText events other text later →
        declaredBy other text name = false := by
  unfold describe?
  cases hreserved : reserved? name with
  | some entry => simp [isReserved, hreserved]
  | none =>
    simp only [Option.map_eq_none_iff, bestOccurrence?_eq_none_iff h]
    simp [isReserved, hreserved]

end Lookup

/-- After any events there is nothing to tell about a position if no word touches it, or if the word
that does is neither reserved nor declared in any open document. Otherwise the range is that of the
word. A reserved name has its fixed description; for any other word the text tells of its first
declaration in the document itself, or else of the first one in the document that has not been
opened or changed for the longest time of those that declare it. At every column of the range, its
end included, the answer is the same. -/
theorem hover_picks_declaration (settings : Settings) (events : List Event) (uri : String)
    (position : Position) :
    (((empty settings).run events).hover uri position = none ↔
      (¬∃ word before after,
        Stands ((empty settings).run events).documents uri word position.line before after ∧
          Touches before word.toList after position.column) ∨
      ∃ word before after,
        Stands ((empty settings).run events).documents uri word position.line before after ∧
          Touches before word.toList after position.column ∧ isReserved word = false ∧
          ∀ other text later, HasText events other text later →
            declaredBy other text word = false) ∧
    (∀ answer, ((empty settings).run events).hover uri position = some answer ↔
      ∃ word before after,
        Stands ((empty settings).run events).documents uri word position.line before after ∧
          Touches before word.toList after position.column ∧
          answer.range =
            some (Range.onLine position.line (width before) (width (before ++ word.toList))) ∧
          Explains events uri word answer.contents) ∧
    ∀ answer range, ((empty settings).run events).hover uri position = some answer →
      answer.range = some range → ∀ column, range.start.column ≤ column →
        column ≤ range.stop.column →
          ((empty settings).run events).hover uri ⟨position.line, column⟩ = some answer := by
  have htracks := tracks_run settings events
  refine ⟨?_, fun answer ↦ ?_, fun answer range hanswer hrange column ↦ ?_⟩
  · rw [hover, Cursor.hover_eq_none_iff]
    simp only [describe?_eq_none_iff htracks]
  · rw [hover, Cursor.hover_eq_some_iff]
    simp only [describe?_eq_some_iff htracks]
  · exact Cursor.hover_eq_of_mem_range hanswer hrange

/-- The document has no declaration of its own. Of the two that have one, the first was changed
after the second was opened. -/
example : ((empty Settings.standard).run [⟨"a.inmu", "let x = 1", .opened⟩,
    ⟨"b.inmu", "\nfn x()", .opened⟩, ⟨"c.inmu", "print x", .opened⟩,
    ⟨"a.inmu", "let x = 2", .changed⟩]).hover "c.inmu" ⟨0, 7⟩ =
      some ⟨"**(function) x**\n\nDefined at line 2", some (Range.onLine 0 6 7)⟩ := by
  decide +kernel

end Workspace

end ScriptSense
