import ScriptSense.Proofs.Script.Decoration
import ScriptSense.Proofs.Script.Markers
import ScriptSense.Proofs.Symbol.Documentation
import ScriptSense.Proofs.Text.Lines

/-!
# What a block documents

The documentation that a block holds is built from what stands between its markers. The one block
that leaks a marker ends with a line on which the markers share an asterisk.

A block that is written for some lines of documentation documents the declaration below it with
exactly these lines, also with blank lines and line comments in between.
-/

namespace ScriptSense

open Text Script

namespace Script

/-- The text is joined from ends of the given lines. -/
def IsBuiltFrom (body : List (List Char)) (text : String) : Prop :=
  ∃ parts, List.Forall₂ (· <:+ ·) parts body ∧
    text = String.ofList (trim (joinLines (parts.filter (!isBlankLine ·))))

/-- What a block without text leaves for the next declaration. -/
def Block.leftover (lines : List (List Char)) (block : Block) : Option String :=
  if lines[block.first]?.any DocBlock.sharesMarkers then some "/" else none

/-- The text that is collected from the block has its markers left out, but for the slash of markers
that share an asterisk. -/
structure Block.LeavesMarkers (lines : List (List Char)) (block : Block) : Prop where
  built : IsBuiltFrom (block.cleaned lines) (DocBlock.collect lines block.first).text
  cleaned_eq : lines[block.last]?.any DocBlock.sharesMarkers = false →
    block.cleaned lines = block.body lines
  leaks : lines[block.last]?.any DocBlock.sharesMarkers →
    (DocBlock.collect lines block.first).text.toList.getLast? = some '/'
  hollow : block.IsHollow lines →
    DocBlock.pending (DocBlock.collect lines block.first).text.toList = block.leftover lines

variable {lines : List (List Char)} {block : Block}

theorem Block.Spans.pending_of_isHollow (h : block.Spans lines) (hhollow : block.IsHollow lines) :
    DocBlock.pending (DocBlock.content (block.covered lines)) = block.leftover lines := by
  rw [h.content_of_isHollow hhollow, Block.leftover]
  split <;> rfl

/-- With shared markers on the last line, the slash of the closing one ends the text. -/
theorem Block.Spans.getLast?_content (h : block.Spans lines)
    (hlast : lines[block.last]?.any DocBlock.sharesMarkers) :
    (DocBlock.content (block.covered lines)).getLast? = some '/' := by
  rw [Option.any_eq_true, ← h.getLast?_covered] at hlast
  obtain ⟨line, hline, hshares⟩ := hlast
  obtain ⟨front, hfront⟩ := List.getLast?_eq_some_iff.mp hline
  have hslash : DocBlock.cleanLine line = ['/'] :=
    DocBlock.cleanLine_sharedMarkers (eq_of_beq hshares)
  have hkept : [['/']].filter (!isBlankLine ·) = [['/']] := by decide
  obtain ⟨rest, hrest⟩ := exists_trim_append_singleton (c := '/') (by decide)
    (((front.map DocBlock.cleanLine).filter (!isBlankLine ·)).flatMap (· ++ ['\n']))
  rw [DocBlock.content, hfront, List.map_append, List.map_singleton, hslash, List.filter_append,
    hkept, joinLines_append_singleton, hrest, List.getLast?_concat]

theorem Block.Spans.leavesMarkers (h : block.Spans lines) : block.LeavesMarkers lines where
  built := by
    rw [h.collect_eq]
    exact ⟨_, h.forall₂_suffix_cleaned, rfl⟩
  cleaned_eq := h.cleaned_eq_body
  leaks hlast := by
    rw [h.collect_eq, String.toList_ofList]
    exact h.getLast?_content hlast
  hollow hhollow := by
    rw [h.collect_eq, String.toList_ofList]
    exact h.pending_of_isHollow hhollow

end Script

namespace Symbol

/-- The documentation of a block is built from what stands after the first three characters of the
line that opens it and before the last two of the line that closes it, and a block with nothing but
decoration there documents nothing. On the line `/**/` the two markers share an asterisk; there the
slash is left. -/
theorem markers_are_left_out {all : List (List Char)} {start : Nat}
    (h : all[start]?.any opensDoc) :
    ∃ block : Block, block.first = start ∧ block.last = (DocBlock.collect all start).lastLine ∧
      block.LeavesMarkers all ∧
      ∀ uri text blocks, lines text = all → Divides all blocks → block ∈ blocks →
        block.IsHollow all → ∀ occurrence ∈ scan uri text, block.Precedes all occurrence.line →
          occurrence.doc = block.leftover all := by
  obtain ⟨last, hspans⟩ := Block.exists_spans h
  refine ⟨⟨start, last⟩, rfl, by rw [hspans.collect_eq], hspans.leavesMarkers, ?_⟩
  rintro uri text blocks rfl hdivides hblock hhollow occurrence hoccurrence hprecedes
  have hrecorded := (mem_scan_iff hdivides occurrence).mp hoccurrence
  rw [hrecorded.doc_eq_pending hdivides hblock hprecedes, hspans.pending_of_isHollow hhollow]

/-- Asterisks next to the markers are no text. -/
theorem markers_are_left_out_of_stars :
    (lines "/***\n *\n **/")[0]?.any opensDoc ∧ (Block.mk 0 2).IsHollow (lines "/***\n *\n **/") ∧
      DocBlock.pending (DocBlock.collect (lines "/***\n *\n **/") 0).text.toList = none := by
  have hopens : (lines "/***\n *\n **/")[0]?.any opensDoc := by decide +kernel
  have hhollow : (Block.mk 0 2).IsHollow (lines "/***\n *\n **/") := by decide +kernel
  have hlast : (DocBlock.collect (lines "/***\n *\n **/") 0).lastLine = 2 := by decide +kernel
  have hnone : (Block.mk 0 2).leftover (lines "/***\n *\n **/") = none := by decide +kernel
  obtain ⟨block, hfirst, hend, hleaves, -⟩ := markers_are_left_out hopens
  obtain rfl : block = ⟨0, 2⟩ := by
    cases block
    simp_all
  exact ⟨hopens, hhollow, (hleaves.hollow hhollow).trans hnone⟩

/-- Nothing stands between the markers of `/**/`, and yet the next declaration is documented with
the slash. -/
theorem shared_asterisk_leaks :
    (lines "/**/\nlet x = 1")[0]?.any opensDoc ∧
      DocBlock.collect (lines "/**/\nlet x = 1") 0 = ⟨"/", 0, true⟩ ∧
      (Block.mk 0 0).body (lines "/**/\nlet x = 1") = [[]] ∧
      ¬IsBuiltFrom ((Block.mk 0 0).body (lines "/**/\nlet x = 1")) "/" ∧
      (Block.mk 0 0).IsHollow (lines "/**/\nlet x = 1") ∧
      scan "a.inmu" "/**/\nlet x = 1" = [⟨"x", .variable, "a.inmu", 1, 4, some "/"⟩] := by
  have hbody : (Block.mk 0 0).body (lines "/**/\nlet x = 1") = [[]] := by decide +kernel
  refine ⟨by decide +kernel, by decide +kernel, hbody, ?_, by decide +kernel, by decide +kernel⟩
  rw [hbody]
  rintro ⟨parts, hparts, htext⟩
  obtain ⟨part, rfl, hpart⟩ : ∃ part, parts = [part] ∧ part <:+ [] := by
    cases hparts with
    | cons hpart hrest =>
      cases hrest
      exact ⟨_, rfl, hpart⟩
  rw [List.suffix_nil.mp hpart] at htext
  exact absurd htext (by decide)

/-- The block that is written for the contents opens outside all other blocks. -/
structure HasDecorated (text : String) (blocks : List Block)
    (before contents after : List (List Char)) : Prop where
  lines_eq : lines text = before ++ (decorated contents ++ after)
  ne_nil : contents ≠ []
  isContent : ∀ content ∈ contents, IsContent content
  divides : Divides (lines text) blocks
  outside : ∀ block ∈ blocks, block.Covers before.length → block.first = before.length

namespace HasDecorated

variable {text : String} {blocks : List Block} {before contents after : List (List Char)}

theorem spans (h : HasDecorated text blocks before contents after) :
    (decoratedBlock before contents).Spans (lines text) := by
  rw [h.lines_eq]
  exact spans_decorated h.isContent before after

theorem content_covered (h : HasDecorated text blocks before contents after) :
    DocBlock.content ((decoratedBlock before contents).covered (lines text)) =
      joinLines contents := by
  rw [h.lines_eq, covered_decorated, content_decorated h.isContent h.ne_nil]

theorem mem_blocks (h : HasDecorated text blocks before contents after) :
    decoratedBlock before contents ∈ blocks := by
  have hspans := h.spans
  obtain ⟨block, hblock, hcovers⟩ := h.divides.complete before.length hspans.opens
  rwa [← (h.divides.spans block hblock).eq_of_first_eq hspans (h.outside block hblock hcovers)]

theorem collect_eq (h : HasDecorated text blocks before contents after) :
    DocBlock.collect (lines text) before.length =
      ⟨String.ofList (joinLines contents), before.length + contents.length + 1, true⟩ := by
  have hcloses : (lines text)[(decoratedBlock before contents).last]?.any closesDoc := by
    rw [h.lines_eq]
    exact any_closesDoc_decorated before contents after
  have hcollect := h.spans.collect_eq
  rwa [h.content_covered, hcloses] at hcollect

theorem getElem?_after (h : HasDecorated text blocks before contents after) (index : Nat) :
    (lines text)[before.length + (contents.length + 2) + index]? = after[index]? := by
  have hlength : (before ++ decorated contents).length =
      before.length + (contents.length + 2) := by
    rw [List.length_append, length_decorated]
  rw [← List.getElem?_drop, h.lines_eq, ← List.append_assoc, List.drop_left' hlength]

section Declaration

variable {skipped rest : List (List Char)} {declaration : List Char}
  (h : HasDecorated text blocks before contents (skipped ++ declaration :: rest))

include h

theorem getElem?_declaration :
    (lines text)[before.length + (contents.length + 2) + skipped.length]? = some declaration := by
  rw [h.getElem?_after, List.getElem?_append_right (Nat.le_refl _), Nat.sub_self,
    List.getElem?_cons_zero]

/-- The block precedes the first line below it that is neither blank nor a line comment. -/
theorem precedes (hskipped : ∀ line ∈ skipped, shape line = .blank ∨ shape line = .comment) :
    (decoratedBlock before contents).Precedes (lines text)
      (before.length + (contents.length + 2) + skipped.length) where
  above := by
    rw [decoratedBlock_last]
    omega
  skipped between line hlast hnumber hline := by
    rw [decoratedBlock_last] at hlast
    obtain ⟨index, rfl⟩ : ∃ index, between = before.length + (contents.length + 2) + index :=
      Nat.exists_eq_add_of_le (by omega)
    rw [h.getElem?_after, List.getElem?_append_left (by omega)] at hline
    exact hskipped line (List.mem_of_getElem? hline)

/-- A declaration below the block is recorded with the lines of the block as its documentation. -/
theorem isRecorded (uri : String) {name : String} {kind : SymbolKind}
    (hskipped : ∀ line ∈ skipped, shape line = .blank ∨ shape line = .comment)
    (hshape : shape declaration = .declaration name kind) :
    IsRecorded uri (lines text) blocks
      ⟨name, kind, uri, before.length + (contents.length + 2) + skipped.length,
        nameColumn declaration name, some (String.ofList (joinLines contents))⟩ where
  uri_eq := rfl
  outside block hblock :=
    h.divides.not_covers_of_precedes h.mem_blocks (h.precedes hskipped) h.getElem?_declaration
      (by simp [hshape]) hblock
  declared := ⟨declaration, h.getElem?_declaration, hshape, rfl⟩
  doc documentation := by
    have hpending : DocBlock.pending (joinLines contents) =
        some (String.ofList (joinLines contents)) :=
      if_neg (joinLines_ne_nil h.isContent h.ne_nil)
    rw [h.divides.isDocumentation_iff h.mem_blocks (h.precedes hskipped), h.content_covered,
      hpending]

end Declaration

end HasDecorated

/-- A block that is written for some lines is collected with these lines as its text and ends at its
own closing line. A declaration below it is recorded with this documentation, whatever blank lines
and line comments stand in between. -/
theorem decoration_round_trips {text : String} {blocks : List Block}
    {before contents after : List (List Char)}
    (h : HasDecorated text blocks before contents after) :
    decoratedBlock before contents ∈ blocks ∧
      DocBlock.collect (lines text) before.length =
        ⟨String.ofList (joinLines contents), before.length + contents.length + 1, true⟩ ∧
      ∀ uri skipped declaration rest name kind, after = skipped ++ declaration :: rest →
        (∀ line ∈ skipped, shape line = .blank ∨ shape line = .comment) →
        shape declaration = .declaration name kind →
        ∀ occurrence, (occurrence ∈ scan uri text ∧ occurrence.line =
            before.length + (contents.length + 2) + skipped.length) ↔
          occurrence = ⟨name, kind, uri, before.length + (contents.length + 2) + skipped.length,
            nameColumn declaration name, some (String.ofList (joinLines contents))⟩ := by
  refine ⟨h.mem_blocks, h.collect_eq, ?_⟩
  rintro uri skipped declaration rest name kind rfl hskipped hshape occurrence
  have hmem := (mem_scan_iff h.divides _).mpr (h.isRecorded uri hskipped hshape)
  constructor
  · rintro ⟨hoccurrence, hline⟩
    exact eq_of_line_eq (pairwise_line_scan uri text) hoccurrence hmem hline
  · rintro rfl
    exact ⟨hmem, rfl⟩

/-- Lines of documentation may look like markers. -/
theorem decoration_round_trips_of_marked : ∃ blocks,
    HasDecorated "/**\n * /** a\n * /\n */\n# c\nlet x = 1" blocks [] ["/** a".toList, "/".toList]
        ["# c".toList, "let x = 1".toList] ∧
      ⟨"x", .variable, "a.inmu", 5, 4, some "/** a\n/"⟩ ∈
        scan "a.inmu" "/**\n * /** a\n * /\n */\n# c\nlet x = 1" := by
  have hlines : lines "/**\n * /** a\n * /\n */\n# c\nlet x = 1" =
      decorated ["/** a".toList, "/".toList] ++ ["# c".toList, "let x = 1".toList] := by
    decide +kernel
  have hcontents : ∀ content ∈ ["/** a".toList, "/".toList],
      content ≠ [] ∧ trim content = content ∧ ¬docCloser <:+ content := by decide +kernel
  obtain ⟨blocks, hdivides⟩ :=
    exists_divides (lines "/**\n * /** a\n * /\n */\n# c\nlet x = 1")
  have hdecorated : HasDecorated "/**\n * /** a\n * /\n */\n# c\nlet x = 1" blocks []
      ["/** a".toList, "/".toList] ["# c".toList, "let x = 1".toList] := by
    refine ⟨hlines, List.cons_ne_nil _ _, ?_, hdivides, ?_⟩
    · intro content hcontent
      obtain ⟨hne, htrimmed, hunclosed⟩ := hcontents content hcontent
      exact ⟨hne, htrimmed, hunclosed⟩
    · exact fun block _ hcovers ↦ Nat.le_zero.mp hcovers.1
  obtain ⟨-, -, hscan⟩ := decoration_round_trips hdecorated
  have hrecorded := (hscan "a.inmu" ["# c".toList] "let x = 1".toList [] "x" .variable rfl
    (by decide +kernel) (by decide +kernel) _).mpr rfl
  exact ⟨blocks, hdecorated, hrecorded.1⟩

end Symbol

end ScriptSense
