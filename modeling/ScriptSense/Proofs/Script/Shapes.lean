import ScriptSense.Proofs.Script.Grammar

/-!
# Shapes do not overlap

A line that reads as blank, as a comment, as the opening of a documentation block or as a
declaration reads as nothing else, since each of them begins in a way of its own. So the order in
which the recognisers are asked does not matter, and a line has the shape that it reads as.
-/

namespace ScriptSense.Script

open Text

def commentMarkers : List (List Char) := [['#'], ['/', '/']]

/-- The line can be read as one of the shapes that have a form of their own. -/
inductive Reads (line : List Char) : Shape → Prop
  | blank (h : ∀ c ∈ line, isBlank c) : Reads line .blank
  | comment (marker : List Char) (hmarker : marker ∈ commentMarkers) (h : StartsWith marker line) :
      Reads line .comment
  | docOpening (h : StartsWith docOpener line) : Reads line .docOpening
  | declaration (kind : SymbolKind) (reading : Declaration kind line) :
      Reads line (.declaration (String.ofList reading.name) kind)

section Line

variable {line : List Char}

theorem isBlank_commentMarkers : ∀ marker ∈ commentMarkers, ∀ c ∈ marker, isBlank c = false := by
  simp [commentMarkers, isBlank, blankStretches]

theorem isBlank_docOpener : ∀ c ∈ docOpener, isBlank c = false := by
  simp [docOpener, isBlank, blankStretches]

theorem isComment_iff : isComment line ↔ ∃ marker ∈ commentMarkers, StartsWith marker line := by
  have hstarts (marker : List Char) (hmarker : marker ∈ commentMarkers) :
      marker.isPrefixOf (trim line) ↔ StartsWith marker line :=
    startsWith_iff (isBlank_commentMarkers marker hmarker)
  rw [isComment, Bool.or_eq_true, hstarts _ (by decide), hstarts _ (by decide)]
  simp [commentMarkers]

theorem opensDoc_iff : opensDoc line ↔ StartsWith docOpener line :=
  startsWith_iff isBlank_docOpener

theorem isComment_of_startsWith {front : List Char} (h : StartsWith front line)
    (hblank : ∀ c ∈ front, isBlank c = false)
    (hapart : ∀ marker ∈ commentMarkers,
      (front.isPrefixOf marker || marker.isPrefixOf front) = false) : isComment line = false := by
  rw [← Bool.not_eq_true, isComment_iff]
  rintro ⟨marker, hmarker, hstarts⟩
  refine h.not_startsWith ?_ (hapart marker hmarker) hstarts
  exact List.forall_mem_append.mpr ⟨hblank, isBlank_commentMarkers marker hmarker⟩

theorem opensDoc_of_startsWith {front : List Char} (h : StartsWith front line)
    (hblank : ∀ c ∈ front, isBlank c = false)
    (hapart : (front.isPrefixOf docOpener || docOpener.isPrefixOf front) = false) :
    opensDoc line = false := by
  rw [← Bool.not_eq_true, opensDoc_iff]
  exact h.not_startsWith (List.forall_mem_append.mpr ⟨hblank, isBlank_docOpener⟩) hapart

theorem isComment_of_isBlankLine (h : isBlankLine line) : isComment line = false := by
  rw [← Bool.not_eq_true, isComment_iff]
  rintro ⟨marker, hmarker, hstarts⟩
  have hne : ∀ marker ∈ commentMarkers, marker ≠ [] := by decide
  rw [hstarts.isBlankLine (hne marker hmarker) (isBlank_commentMarkers marker hmarker)] at h
  contradiction

theorem opensDoc_of_isBlankLine (h : isBlankLine line) : opensDoc line = false := by
  rw [← Bool.not_eq_true, opensDoc_iff]
  intro hstarts
  rw [hstarts.isBlankLine (by decide) isBlank_docOpener] at h
  contradiction

theorem Introduction.startsWith {kind : SymbolKind} {rest : List Char}
    (intro : Introduction kind line rest) : StartsWith kind.keyword line :=
  ⟨intro.before, intro.gap ++ rest, intro.before_blank, intro.line_eq⟩

/-- A line that begins with a keyword has none of the other beginnings. -/
theorem not_blank_comment_docOpening {kind : SymbolKind} (h : StartsWith kind.keyword line) :
    isBlankLine line = false ∧ isComment line = false ∧ opensDoc line = false := by
  refine ⟨h.isBlankLine kind.keyword_ne_nil kind.isBlank_keyword,
    isComment_of_startsWith h kind.isBlank_keyword ?_,
    opensDoc_of_startsWith h kind.isBlank_keyword ?_⟩
  · cases kind <;> decide
  · cases kind <;> decide

/-- No line begins with the keywords of both kinds. -/
theorem kind_eq_of_startsWith {kind other : SymbolKind} (h : StartsWith kind.keyword line)
    (hother : StartsWith other.keyword line) : kind = other := by
  by_contra hne
  refine h.not_startsWith ?_ ?_ hother
  · exact List.forall_mem_append.mpr ⟨kind.isBlank_keyword, other.isBlank_keyword⟩
  · revert hne
    cases kind <;> cases other <;> decide

/-- What a line reads as decides what each recogniser says of it. -/
theorem Reads.decides {shape : Shape} (h : Reads line shape) :
    isBlankLine line = (shape == .blank) ∧ isComment line = (shape == .comment) ∧
      opensDoc line = (shape == .docOpening) := by
  cases h with
  | blank h =>
    have hblank := isBlankLine_iff.mpr h
    exact ⟨hblank, isComment_of_isBlankLine hblank, opensDoc_of_isBlankLine hblank⟩
  | comment marker hmarker h =>
    have hmarkers : ∀ marker ∈ commentMarkers, marker ≠ [] ∧
      (marker.isPrefixOf docOpener || docOpener.isPrefixOf marker) = false := by decide
    obtain ⟨hne, hapart⟩ := hmarkers marker hmarker
    have hblank := isBlank_commentMarkers marker hmarker
    exact ⟨h.isBlankLine hne hblank, isComment_iff.mpr ⟨marker, hmarker, h⟩,
      opensDoc_of_startsWith h hblank hapart⟩
  | docOpening h =>
    exact ⟨h.isBlankLine (by decide) isBlank_docOpener,
      isComment_of_startsWith h isBlank_docOpener (by decide), opensDoc_iff.mpr h⟩
  | declaration kind reading => exact not_blank_comment_docOpening reading.introduction.startsWith

theorem Reads.unique {shape other : Shape} (h : Reads line shape) (hother : Reads line other) :
    shape = other := by
  have hfirst := h.decides
  have hsecond := hother.decides
  -- What the recognisers say tells the shapes apart, but not one declaration from another.
  cases h with
  | declaration kind reading =>
    cases hother with
    | declaration other second =>
      obtain rfl := kind_eq_of_startsWith reading.introduction.startsWith
        second.introduction.startsWith
      rw [Subsingleton.elim reading second]
    | _ => simp_all
  | _ => cases hother <;> simp_all

/-- The shape that is `shape` where `p` holds. -/
def recogniseBy (p : List Char → Bool) (shape : Shape) (line : List Char) : Option Shape :=
  if p line then some shape else none

def recogniseDeclaration (kind : SymbolKind) (line : List Char) : Option Shape :=
  (declaredName kind.keyword kind.mark line).map fun name ↦ .declaration (String.ofList name) kind

/-- Each of them looks at the line without regard to the others. -/
def recognisers : List (List Char → Option Shape) :=
  [recogniseBy isBlankLine .blank, recogniseBy isComment .comment, recogniseBy opensDoc .docOpening,
    recogniseDeclaration .variable, recogniseDeclaration .function]

/-- The shape that the first recogniser to accept the line gives it. -/
def shapeBy (order : List (List Char → Option Shape)) (line : List Char) : Shape :=
  (order.findSome? (· line)).getD .statement

theorem shape_eq_shapeBy (line : List Char) : shape line = shapeBy recognisers line := by
  unfold shape shapeBy recognisers
  simp only [List.findSome?_cons, List.findSome?_nil, recogniseBy, recogniseDeclaration,
    SymbolKind.keyword, SymbolKind.mark]
  cases isBlankLine line <;> cases isComment line <;> cases opensDoc line <;>
    cases declaredName variableKeyword '=' line <;>
    cases declaredName functionKeyword '(' line <;> rfl

theorem recogniseBy_eq_some_iff {p : List Char → Bool} {shape result : Shape} :
    recogniseBy p shape line = some result ↔ p line ∧ result = shape := by
  rw [recogniseBy, Option.ite_none_right_eq_some, Option.some_inj, eq_comm (a := shape)]

theorem recogniseDeclaration_eq_some_iff {kind : SymbolKind} {result : Shape} :
    recogniseDeclaration kind line = some result ↔ ∃ reading : Declaration kind line,
      result = .declaration (String.ofList reading.name) kind := by
  rw [recogniseDeclaration, Option.map_eq_some_iff]
  simp only [declaredName_eq_some_iff]
  constructor
  · rintro ⟨name, ⟨reading, rfl⟩, rfl⟩
    exact ⟨reading, rfl⟩
  · rintro ⟨reading, rfl⟩
    exact ⟨_, ⟨reading, rfl⟩, rfl⟩

/-- The recognisers together accept what can be read. -/
theorem reads_iff_exists_recogniser {shape : Shape} :
    Reads line shape ↔ ∃ recognise ∈ recognisers, recognise line = some shape := by
  simp only [recognisers, List.exists_mem_cons_iff, List.not_mem_nil, false_and, exists_false,
    or_false, recogniseBy_eq_some_iff, recogniseDeclaration_eq_some_iff, isBlankLine_iff,
    isComment_iff, opensDoc_iff]
  constructor
  · intro h
    cases h with
    | blank h => exact .inl ⟨h, rfl⟩
    | comment marker hmarker h => exact .inr (.inl ⟨⟨marker, hmarker, h⟩, rfl⟩)
    | docOpening h => exact .inr (.inr (.inl ⟨h, rfl⟩))
    | declaration kind reading =>
      cases kind
      · exact .inr (.inr (.inr (.inl ⟨reading, rfl⟩)))
      · exact .inr (.inr (.inr (.inr ⟨reading, rfl⟩)))
  · rintro (⟨h, rfl⟩ | ⟨⟨marker, hmarker, h⟩, rfl⟩ | ⟨h, rfl⟩ | ⟨reading, rfl⟩ | ⟨reading, rfl⟩)
    · exact .blank h
    · exact .comment marker hmarker h
    · exact .docOpening h
    · exact .declaration .variable reading
    · exact .declaration .function reading

section Order

variable {order : List (List Char → Option Shape)} {shape : Shape}

/-- At most one recogniser's answer is possible, so the first answer is the only one. -/
theorem findSome?_eq_some_iff (horder : order.Perm recognisers) :
    order.findSome? (· line) = some shape ↔ Reads line shape := by
  constructor
  · intro h
    obtain ⟨recognise, hmem, hrecognise⟩ := List.exists_of_findSome?_eq_some h
    exact reads_iff_exists_recogniser.mpr ⟨recognise, horder.mem_iff.mp hmem, hrecognise⟩
  · intro h
    obtain ⟨recognise, hmem, hrecognise⟩ := reads_iff_exists_recogniser.mp h
    cases hfound : order.findSome? (· line) with
    | none =>
      have hnone := List.findSome?_eq_none_iff.mp hfound recognise (horder.mem_iff.mpr hmem)
      rw [hrecognise] at hnone
      contradiction
    | some found =>
      obtain ⟨other, hother, hanswer⟩ := List.exists_of_findSome?_eq_some hfound
      have hreads := reads_iff_exists_recogniser.mpr ⟨other, horder.mem_iff.mp hother, hanswer⟩
      rw [hreads.unique h]

theorem shapeBy_perm (horder : order.Perm recognisers) (line : List Char) :
    shapeBy order line = Script.shape line := by
  have hsame : order.findSome? (· line) = recognisers.findSome? (· line) := by
    ext found
    rw [findSome?_eq_some_iff horder, findSome?_eq_some_iff (List.Perm.refl _)]
  rw [shape_eq_shapeBy, shapeBy, shapeBy, hsame]

end Order

theorem shape_eq_iff {shape : Shape} (hne : shape ≠ .statement) :
    Script.shape line = shape ↔ Reads line shape := by
  rw [shape_eq_shapeBy, shapeBy, ← findSome?_eq_some_iff (List.Perm.refl _)]
  cases recognisers.findSome? (· line) with
  | none => exact iff_of_false hne.symm (Option.some_ne_none shape).symm
  | some found => exact Option.some_inj.symm

theorem shape_eq_declaration_iff {name : String} {kind : SymbolKind} :
    shape line = .declaration name kind ↔
      ∃ reading : Declaration kind line, reading.name = name.toList := by
  rw [shape_eq_iff Shape.noConfusion]
  constructor
  · intro h
    cases h with
    | declaration _ reading => exact ⟨reading, String.toList_ofList.symm⟩
  · rintro ⟨reading, hname⟩
    have hreads := Reads.declaration kind reading
    rwa [hname, String.ofList_toList] at hreads

/-- A declaration without a value is no declaration. -/
theorem BareDeclaration.isEmpty (bare : BareDeclaration line) (kind : SymbolKind) :
    IsEmpty (Declaration kind line) where
  false reading := by
    obtain rfl : kind = .variable :=
      kind_eq_of_startsWith reading.introduction.startsWith bare.introduction.startsWith
    have hmem : '=' ∈ line := by
      rw [reading.introduction.line_eq_front]
      simp [SymbolKind.mark]
    exact bare.equals_notMem hmem

/-- What a line is taken for is what it can be read as. -/
structure FollowsGrammar (line : List Char) : Prop where
  declaration (name : String) (kind : SymbolKind) : shape line = .declaration name kind ↔
    ∃ reading : Declaration kind line, reading.name = name.toList
  oneReading (kind : SymbolKind) : Subsingleton (Declaration kind line)
  isRun (kind : SymbolKind) (reading : Declaration kind line) :
    IsRun reading.introduction.front reading.name (reading.between ++ kind.mark :: reading.after)
  bare : isBareDeclaration line ↔ Nonempty (BareDeclaration line)
  bare_apart : isBareDeclaration line → ∀ name kind, shape line ≠ .declaration name kind
  reads (shape : Shape) : shape ≠ .statement → (Script.shape line = shape ↔ Reads line shape)
  disjoint (shape other : Shape) : Reads line shape → Reads line other → shape = other
  anyOrder (order : List (List Char → Option Shape)) : order.Perm recognisers →
    shapeBy order line = shape line

theorem shape_follows_grammar (line : List Char) : FollowsGrammar line where
  declaration name kind := shape_eq_declaration_iff
  oneReading kind := inferInstance
  isRun kind reading := reading.isRun
  bare := isBareDeclaration_iff
  bare_apart hbare name kind hshape := by
    obtain ⟨bare⟩ := isBareDeclaration_iff.mp hbare
    obtain ⟨reading, -⟩ := shape_eq_declaration_iff.mp hshape
    exact (bare.isEmpty kind).false reading
  reads shape hne := shape_eq_iff hne
  disjoint shape other h hother := h.unique hother
  anyOrder order horder := shapeBy_perm horder line

end Line

end ScriptSense.Script
