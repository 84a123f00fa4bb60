import ScriptSense.Proofs.Script.Division
import ScriptSense.Proofs.Text.Trim

/-!
# The markers of a documentation block

A line of a block is cleaned of the marker that opens a block and of the one that closes it. The two
come off one after the other, so on the line `/**/`, where they share an asterisk, only the first
one comes off.
-/

namespace ScriptSense.Script

open Text

namespace DocBlock

/-- What stands on the trimmed line after its first three characters, if it opens a block, and
before its last two, if it closes one. -/
def between (opens closes : Bool) (line : List Char) : List Char :=
  ((trim line).take ((trim line).length - if closes then 2 else 0)).drop (if opens then 3 else 0)

/-- The line that opens and closes a block with one asterisk for both markers. -/
def sharedMarkers : List Char := ['/', '*', '*', '/']

def sharesMarkers (line : List Char) : Bool :=
  trim line == sharedMarkers

end DocBlock

/-- What stands between the markers on one of the lines of a block. Its first line opens it, and its
last line may close it. -/
def Block.bodyLine (block : Block) (index : Nat) (line : List Char) : List Char :=
  DocBlock.between (index == 0) (block.first + index == block.last && closesDoc line) line

/-- What stands between the markers of a block. -/
def Block.body (lines : List (List Char)) (block : Block) : List (List Char) :=
  (block.covered lines).mapIdx block.bodyLine

/-- What the lines of a block have on them once the markers come off: what stands between the
markers, except that markers that share an asterisk leave a slash. -/
def Block.cleaned (lines : List (List Char)) (block : Block) : List (List Char) :=
  (block.covered lines).mapIdx fun index line ↦
    if DocBlock.sharesMarkers line then ['/'] else block.bodyLine index line

/-- Nothing stands between the markers but blank characters and the asterisks that decorate the
lines. -/
def Block.IsHollow (lines : List (List Char)) (block : Block) : Prop :=
  ∀ line ∈ block.body lines, trim line = [] ∨ trim line = ['*']

instance (lines : List (List Char)) (block : Block) : Decidable (block.IsHollow lines) :=
  inferInstanceAs (Decidable (∀ line ∈ block.body lines, trim line = [] ∨ trim line = ['*']))

namespace DocBlock

section Marker

variable {line : List Char}

theorem withoutOpener_append (rest : List Char) : withoutOpener (docOpener ++ rest) = rest := by
  rw [withoutOpener, List.isPrefixOf?_eq_some_iff_append_eq.mpr rfl, Option.getD_some]

theorem withoutOpener_eq_self (h : ¬docOpener <+: line) : withoutOpener line = line := by
  have hnone : docOpener.isPrefixOf? line = none := by
    apply Option.eq_none_iff_forall_ne_some.mpr
    exact fun rest hrest ↦ h ⟨rest, List.isPrefixOf?_eq_some_iff_append_eq.mp hrest⟩
  rw [withoutOpener, hnone, Option.getD_none]

theorem withoutCloser_append (front : List Char) : withoutCloser (front ++ docCloser) = front := by
  rw [withoutCloser, List.isSuffixOf?_eq_some_iff_append_eq.mpr rfl, Option.getD_some]

theorem withoutCloser_eq_self (h : ¬docCloser <:+ line) : withoutCloser line = line := by
  have hnone : docCloser.isSuffixOf? line = none := by
    apply Option.eq_none_iff_forall_ne_some.mpr
    exact fun front hfront ↦ h ⟨front, List.isSuffixOf?_eq_some_iff_append_eq.mp hfront⟩
  rw [withoutCloser, hnone, Option.getD_none]

theorem withoutDecoration_suffix (line : List Char) : withoutDecoration line <:+ line := by
  have hstart : trimStart line <:+ line := List.dropWhile_suffix isBlank
  unfold withoutDecoration
  split
  · rename_i rest hrest
    rw [hrest] at hstart
    exact ((List.suffix_cons ' ' rest).trans (List.suffix_cons '*' _)).trans hstart
  · rename_i rest _ hrest
    rw [hrest] at hstart
    exact (List.suffix_cons '*' rest).trans hstart
  · exact List.suffix_refl line

theorem withoutDecoration_suffix_of_star {rest : List Char} (h : trimStart line = '*' :: rest) :
    withoutDecoration line <:+ rest := by
  unfold withoutDecoration
  rw [h]
  split
  · rename_i inner heq
    obtain rfl : rest = ' ' :: inner := (List.cons.inj heq).2
    exact List.suffix_cons ' ' inner
  · rename_i inner _ heq
    obtain rfl : rest = inner := (List.cons.inj heq).2
    exact List.suffix_refl rest
  · rename_i hnot
    exact absurd rfl (hnot rest)

end Marker

theorem between_eq {opens closes : Bool} {line middle : List Char}
    (h : trim line = (if opens then docOpener else []) ++
      (middle ++ if closes then docCloser else [])) : between opens closes line = middle := by
  rw [between, h]
  cases opens <;> cases closes <;> simp [docOpener, docCloser]

theorem opener_append_withoutOpener (line : List Char) :
    (if opensDoc line then docOpener else []) ++ withoutOpener (trim line) = trim line := by
  by_cases hopens : opensDoc line
  · obtain ⟨rest, hrest⟩ := List.isPrefixOf_iff_prefix.mp hopens
    rw [if_pos hopens, ← hrest, withoutOpener_append]
  · have hprefix : ¬docOpener <+: trim line := mt List.isPrefixOf_iff_prefix.mpr hopens
    rw [if_neg hopens, withoutOpener_eq_self hprefix, List.nil_append]

theorem withoutCloser_append_closer {line : List Char} {closes : Bool}
    (h : closes ↔ docCloser <:+ line) :
    withoutCloser line ++ (if closes then docCloser else []) = line := by
  by_cases hsuffix : docCloser <:+ line
  · obtain ⟨front, hfront⟩ := hsuffix
    rw [if_pos (h.mpr ⟨front, hfront⟩), ← hfront, withoutCloser_append]
  · rw [if_neg (mt h.mp hsuffix), withoutCloser_eq_self hsuffix, List.append_nil]

/-- A line that starts with one marker and ends with the other has room for both, or is the line on
which they share an asterisk. -/
theorem suffix_of_suffix_opener_append {rest : List Char} (h : docCloser <:+ docOpener ++ rest) :
    docCloser <:+ rest ∨ docOpener ++ rest = sharedMarkers := by
  rw [docOpener, List.cons_append, List.cons_append, List.cons_append, List.nil_append,
    List.suffix_cons_iff, List.suffix_cons_iff, List.suffix_cons_iff] at h
  rcases h with h | h | h | h
  · cases h
  · cases h
  · right
    rw [← (List.cons.inj h).2]
    rfl
  · exact .inl h

/-- Without the opening marker a line still ends with the closing one. -/
theorem closesDoc_iff_suffix {line : List Char} (h : trim line ≠ sharedMarkers) :
    closesDoc line ↔ docCloser <:+ withoutOpener (trim line) := by
  have hline := opener_append_withoutOpener line
  rw [closesDoc, List.isSuffixOf_iff_suffix]
  constructor
  · intro hsuffix
    by_cases hopens : opensDoc line
    · rw [if_pos hopens] at hline
      rw [← hline] at hsuffix h
      exact (suffix_of_suffix_opener_append hsuffix).resolve_right h
    · rw [if_neg hopens, List.nil_append] at hline
      rwa [hline]
  · intro hsuffix
    rw [← hline]
    exact hsuffix.trans (List.suffix_append _ _)

/-- If the two markers do not share an asterisk, both of them come off. -/
theorem withoutMarkers_eq_between {line : List Char} (h : trim line ≠ sharedMarkers) :
    withoutCloser (withoutOpener (trim line)) = between (opensDoc line) (closesDoc line) line := by
  symm
  apply between_eq
  rw [withoutCloser_append_closer (closesDoc_iff_suffix h), opener_append_withoutOpener]

theorem sharesMarkers_eq_false_iff {line : List Char} :
    sharesMarkers line = false ↔ trim line ≠ sharedMarkers :=
  beq_eq_false_iff_ne

theorem closesDoc_of_sharesMarkers {line : List Char} (h : sharesMarkers line) :
    closesDoc line := by
  rw [closesDoc, eq_of_beq h]
  rfl

theorem opensDoc_of_sharesMarkers {line : List Char} (h : sharesMarkers line) :
    opensDoc line := by
  rw [opensDoc, eq_of_beq h]
  rfl

theorem cleanLine_eq {line : List Char} (h : trim line ≠ sharedMarkers) :
    cleanLine line = withoutDecoration (between (opensDoc line) (closesDoc line) line) := by
  rw [cleanLine, withoutMarkers_eq_between h]

/-- Of the markers that share an asterisk, the last character stays. -/
theorem cleanLine_sharedMarkers {line : List Char} (h : trim line = sharedMarkers) :
    cleanLine line = ['/'] := by
  rw [cleanLine, h]
  rfl

theorem between_suffix (opens closes : Bool) (line : List Char) :
    between opens closes line <:+ between false closes line :=
  List.drop_suffix _ _

/-- A line that opens a block keeps its slash if it does not count as opening one. -/
theorem slash_mem_between {line : List Char} (h : opensDoc line) (closes : Bool) :
    '/' ∈ between false closes line := by
  obtain ⟨rest, hrest⟩ := List.isPrefixOf_iff_prefix.mp h
  have hcount : 0 < (trim line).length - (if closes then 2 else 0) := by
    have hlength : docOpener.length = 3 := rfl
    rw [← hrest, List.length_append, hlength]
    split <;> omega
  obtain ⟨count, hcount⟩ := Nat.exists_eq_add_one.mpr hcount
  have hhead : between false closes line = '/' :: (['*', '*'] ++ rest).take count := by
    rw [between, hcount, ← hrest]
    rfl
  rw [hhead]
  exact List.mem_cons_self

/-- What is left of a line without text is blank. -/
theorem isBlankLine_withoutDecoration {line : List Char} (h : trim line = [] ∨ trim line = ['*']) :
    isBlankLine (withoutDecoration line) := by
  have hsuffix {part whole : List Char} (hpart : part <:+ whole) (hwhole : isBlankLine whole) :
      isBlankLine part :=
    isBlankLine_iff.mpr fun c hc ↦ isBlankLine_iff.mp hwhole c (hpart.subset hc)
  rcases h with h | h
  · exact hsuffix (withoutDecoration_suffix line) (trim_eq_nil_iff.mp h)
  · have hstar : trimStart line = '*' :: takeEndWhile isBlank (trimStart line) := by
      have hcut := dropEndWhile_append_takeEndWhile isBlank (trimStart line)
      rw [← trimEnd, ← trim, h] at hcut
      exact hcut.symm
    exact hsuffix (withoutDecoration_suffix_of_star hstar) (isBlankLine_takeEndWhile _)

end DocBlock

/-! ## A whole block -/

namespace Block

variable {lines : List (List Char)} {block : Block} {index : Nat} {line : List Char}

theorem getElem?_covered (h : (block.covered lines)[index]? = some line) :
    block.first + index ≤ block.last ∧ lines[block.first + index]? = some line := by
  rw [covered, List.getElem?_take, List.getElem?_drop] at h
  split at h
  · exact ⟨by omega, h⟩
  · cases h

/-- The only line of a block that can close one is the last line. -/
theorem Spans.eq_last_of_closesDoc (h : block.Spans lines)
    (hline : (block.covered lines)[index]? = some line) (hcloses : closesDoc line) :
    block.first + index = block.last := by
  obtain ⟨hle, hat⟩ := getElem?_covered hline
  apply hle.antisymm
  apply Nat.not_lt.mp
  intro hlt
  have hstays := h.stays _ (Nat.le_add_right _ _) hlt
  rw [hat, Option.any_some, hcloses] at hstays
  contradiction

theorem Spans.bodyLine_eq (h : block.Spans lines)
    (hline : (block.covered lines)[index]? = some line) :
    block.bodyLine index line = DocBlock.between (index == 0) (closesDoc line) line := by
  rw [bodyLine]
  cases hcloses : closesDoc line with
  | false => rw [Bool.and_false]
  | true => rw [beq_iff_eq.mpr (h.eq_last_of_closesDoc hline hcloses), Bool.true_and]

theorem getElem?_first (h : (block.covered lines)[0]? = some line) :
    lines[block.first]? = some line :=
  (getElem?_covered h).2

theorem Spans.opensDoc_of_zero (h : block.Spans lines)
    (hline : (block.covered lines)[0]? = some line) : opensDoc line := by
  have hopens := h.opens
  rwa [getElem?_first hline] at hopens

theorem Spans.covered_eq_singleton (h : block.Spans lines)
    (hline : lines[block.first]? = some line) (hshares : DocBlock.sharesMarkers line) :
    block.covered lines = [line] := by
  have hzero : (block.covered lines)[0]? = some line := by
    have hordered := h.ordered
    rw [covered, List.getElem?_take_of_lt (by omega), List.getElem?_drop]
    exact hline
  have hlength : (block.covered lines).length = 1 := by
    have hcloses := DocBlock.closesDoc_of_sharesMarkers hshares
    have hlast := h.eq_last_of_closesDoc hzero hcloses
    have hcovered := h.length_covered
    omega
  obtain ⟨other, hother⟩ := List.length_eq_one_iff.mp hlength
  rw [hother] at hzero ⊢
  rw [Option.some.inj hzero]

/-- Every line of the block is cleaned to the end of what stands between the markers, or to a
slash. -/
theorem Spans.cleanLine_suffix (h : block.Spans lines)
    (hline : (block.covered lines)[index]? = some line) :
    DocBlock.cleanLine line <:+
      if DocBlock.sharesMarkers line then ['/'] else block.bodyLine index line := by
  split
  · rename_i hshares
    have hslash : DocBlock.cleanLine line = ['/'] :=
      DocBlock.cleanLine_sharedMarkers (eq_of_beq hshares)
    exact hslash ▸ List.suffix_refl _
  · rename_i hshares
    rw [Bool.not_eq_true, DocBlock.sharesMarkers_eq_false_iff] at hshares
    rw [DocBlock.cleanLine_eq hshares, h.bodyLine_eq hline]
    cases index with
    | zero =>
      rw [h.opensDoc_of_zero hline]
      exact DocBlock.withoutDecoration_suffix _
    | succ index =>
      exact (DocBlock.withoutDecoration_suffix _).trans (DocBlock.between_suffix _ _ _)

theorem Spans.forall₂_suffix_cleaned (h : block.Spans lines) :
    List.Forall₂ (· <:+ ·) ((block.covered lines).map DocBlock.cleanLine)
      (block.cleaned lines) := by
  rw [List.forall₂_iff_get]
  refine ⟨by rw [cleaned, List.length_map, List.length_mapIdx], fun index hclean hcleaned ↦ ?_⟩
  rw [List.length_map] at hclean
  have hline : (block.covered lines)[index]? = some (block.covered lines)[index] :=
    List.getElem?_eq_getElem hclean
  simpa [cleaned] using h.cleanLine_suffix hline

/-- If the markers on the last line do not share an asterisk, no markers do. -/
theorem Spans.cleaned_eq_body (h : block.Spans lines)
    (hlast : lines[block.last]?.any DocBlock.sharesMarkers = false) :
    block.cleaned lines = block.body lines := by
  apply List.ext_getElem?
  intro index
  rw [cleaned, body, List.getElem?_mapIdx, List.getElem?_mapIdx]
  cases hline : (block.covered lines)[index]? with
  | none => rfl
  | some line =>
    have hshares : ¬DocBlock.sharesMarkers line := by
      intro hshares
      have hcloses := DocBlock.closesDoc_of_sharesMarkers hshares
      rw [← h.eq_last_of_closesDoc hline hcloses, (getElem?_covered hline).2, Option.any_some,
        hshares] at hlast
      contradiction
    rw [Option.map_some, Option.map_some, if_neg hshares]

theorem getElem?_body (hline : (block.covered lines)[index]? = some line) :
    (block.body lines)[index]? = some (block.bodyLine index line) := by
  rw [body, List.getElem?_mapIdx, hline, Option.map_some]

/-- The lines of a block without text are cleaned to blank lines, unless its markers share an
asterisk. -/
theorem Spans.isBlankLine_cleanLine (h : block.Spans lines) (hhollow : block.IsHollow lines)
    (hfirst : lines[block.first]?.any DocBlock.sharesMarkers = false)
    (hline : (block.covered lines)[index]? = some line) :
    isBlankLine (DocBlock.cleanLine line) := by
  have hempty := hhollow _ (List.mem_of_getElem? (getElem?_body hline))
  rw [h.bodyLine_eq hline] at hempty
  suffices hopens : opensDoc line = (index == 0) ∧ DocBlock.sharesMarkers line = false by
    rw [DocBlock.cleanLine_eq (DocBlock.sharesMarkers_eq_false_iff.mp hopens.2), hopens.1]
    exact DocBlock.isBlankLine_withoutDecoration hempty
  cases index with
  | zero =>
    rw [getElem?_first hline] at hfirst
    exact ⟨h.opensDoc_of_zero hline, hfirst⟩
  | succ index =>
    -- The slash of a marker that does not open the block would be text.
    have hopens : opensDoc line = false := by
      rw [← Bool.not_eq_true]
      intro hopens
      have hslash : '/' ∈ trim (DocBlock.between (index + 1 == 0) (closesDoc line) line) :=
        mem_trim_of_mem (DocBlock.slash_mem_between hopens _) (by decide)
      rcases hempty with hempty | hempty <;> rw [hempty] at hslash <;> simp at hslash
    refine ⟨hopens, ?_⟩
    rw [← Bool.not_eq_true]
    intro hshares
    rw [DocBlock.opensDoc_of_sharesMarkers hshares] at hopens
    contradiction

/-- A block without text documents nothing, unless its markers share an asterisk. -/
theorem Spans.content_of_isHollow (h : block.Spans lines) (hhollow : block.IsHollow lines) :
    DocBlock.content (block.covered lines) =
      if lines[block.first]?.any DocBlock.sharesMarkers then ['/'] else [] := by
  split
  · rename_i hfirst
    rw [Option.any_eq_true] at hfirst
    obtain ⟨line, hline, hshares⟩ := hfirst
    rw [h.covered_eq_singleton hline hshares, DocBlock.content, List.map_singleton,
      DocBlock.cleanLine_sharedMarkers (eq_of_beq hshares)]
    rfl
  · rename_i hfirst
    rw [Bool.not_eq_true] at hfirst
    have hnone : ((block.covered lines).map DocBlock.cleanLine).filter (!isBlankLine ·) = [] := by
      apply List.filter_eq_nil_iff.mpr
      rw [List.forall_mem_map]
      intro line hline
      obtain ⟨index, hindex⟩ := List.mem_iff_getElem?.mp hline
      rw [h.isBlankLine_cleanLine hhollow hfirst hindex]
      simp
    rw [DocBlock.content, hnone]
    rfl

end Block

end ScriptSense.Script
