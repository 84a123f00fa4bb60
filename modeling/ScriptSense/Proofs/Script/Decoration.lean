import ScriptSense.Proofs.Script.Markers
import ScriptSense.Proofs.Text.Lines

/-!
# Decorated blocks

Documentation is written with the markers on lines of their own and an asterisk before each line in
between. A block that is written in this way is read back as it was, whatever its lines begin with,
as long as none of them is blank at an end or ends with the closing marker.
-/

namespace ScriptSense.Script

open Text

/-- A line of documentation, with no blank character at its ends and no closing marker at the
end. -/
structure IsContent (content : List Char) : Prop where
  ne_nil : content ≠ []
  trimmed : trim content = content
  unclosed : ¬docCloser <:+ content

/-- The line that holds a line of documentation in a block. -/
def decorate (content : List Char) : List Char :=
  ' ' :: '*' :: ' ' :: content

/-- The lines of the block that documents with the given lines. -/
def decorated (contents : List (List Char)) : List (List Char) :=
  docOpener :: contents.map decorate ++ [' ' :: docCloser]

/-- The place of the block in a text where the given lines stand before it. -/
def decoratedBlock (before contents : List (List Char)) : Block :=
  ⟨before.length, before.length + contents.length + 1⟩

@[simp]
theorem decoratedBlock_first (before contents : List (List Char)) :
    (decoratedBlock before contents).first = before.length := rfl

@[simp]
theorem decoratedBlock_last (before contents : List (List Char)) :
    (decoratedBlock before contents).last = before.length + contents.length + 1 := rfl

namespace IsContent

variable {content : List Char}

theorem isBlankLine (h : IsContent content) : isBlankLine content = false := by
  rw [← Bool.not_eq_true, ← trim_eq_nil_iff, h.trimmed]
  exact h.ne_nil

theorem isBlank_of_head? (h : IsContent content) : ∀ c ∈ content.head?, isBlank c = false := by
  intro c hc
  rw [← h.trimmed] at hc
  exact isBlank_of_head?_trim hc

theorem isBlank_of_getLast? (h : IsContent content) :
    ∀ c ∈ content.getLast?, isBlank c = false := by
  intro c hc
  rw [← h.trimmed] at hc
  exact isBlank_of_getLast?_trim hc

theorem trim_decorate (h : IsContent content) :
    trim (decorate content) = '*' :: ' ' :: content := by
  have hmargin : Text.isBlankLine [' '] := by decide
  have hline := trim_margins hmargin isBlankLine_nil ('*' :: ' ' :: content)
  rw [List.append_nil, List.singleton_append] at hline
  rw [decorate, hline]
  apply trim_eq_self
  · simp [isBlank, blankStretches]
  · rw [List.getLast?_cons_of_ne_nil (by simp), List.getLast?_cons_of_ne_nil h.ne_nil]
    exact h.isBlank_of_getLast?

theorem not_suffix_decorate (h : IsContent content) : ¬docCloser <:+ '*' :: ' ' :: content := by
  rw [List.suffix_cons_iff, List.suffix_cons_iff]
  rintro (heq | heq | hsuffix)
  · cases heq
  · cases heq
  · exact h.unclosed hsuffix

theorem closesDoc_decorate (h : IsContent content) : closesDoc (decorate content) = false := by
  rw [closesDoc, h.trim_decorate, ← Bool.not_eq_true, List.isSuffixOf_iff_suffix]
  exact h.not_suffix_decorate

/-- What is written after the decoration is what the line is cleaned to. -/
theorem cleanLine_decorate (h : IsContent content) :
    DocBlock.cleanLine (decorate content) = content := by
  have hopener : ¬docOpener <+: '*' :: ' ' :: content := by
    rintro ⟨rest, hrest⟩
    cases hrest
  rw [DocBlock.cleanLine, h.trim_decorate, DocBlock.withoutOpener_eq_self hopener,
    DocBlock.withoutCloser_eq_self h.not_suffix_decorate]
  rfl

end IsContent

theorem length_opening (contents : List (List Char)) :
    (docOpener :: contents.map decorate).length = contents.length + 1 := by
  rw [List.length_cons, List.length_map]

theorem length_decorated (contents : List (List Char)) :
    (decorated contents).length = contents.length + 2 := by
  rw [decorated, List.length_append, length_opening, List.length_singleton]

theorem getElem?_decorated (before after : List (List Char)) {contents : List (List Char)}
    {index : Nat} (hindex : index < contents.length + 2) :
    (before ++ (decorated contents ++ after))[before.length + index]? =
      (decorated contents)[index]? := by
  rw [← length_decorated] at hindex
  rw [List.getElem?_append_right (Nat.le_add_right _ _), Nat.add_sub_cancel_left,
    List.getElem?_append_left hindex]

theorem any_closesDoc_decorated (before contents after : List (List Char)) :
    (before ++ (decorated contents ++ after))[(decoratedBlock before contents).last]?.any
      closesDoc := by
  rw [decoratedBlock_last, Nat.add_assoc, getElem?_decorated before after (Nat.lt_succ_self _),
    decorated, ← length_opening, List.getElem?_concat_length]
  rfl

theorem covered_decorated (before contents after : List (List Char)) :
    (decoratedBlock before contents).covered (before ++ (decorated contents ++ after)) =
      decorated contents := by
  have hlength := length_decorated contents
  rw [Block.covered, decoratedBlock_first, decoratedBlock_last, List.drop_left, List.take_left']
  omega

section Contents

variable {contents : List (List Char)} (h : ∀ content ∈ contents, IsContent content)

include h

theorem trim_joinLines (hne : contents ≠ []) : trim (joinLines contents) = joinLines contents := by
  apply trim_eq_self
  · obtain ⟨first, rest, rfl⟩ := List.exists_cons_of_ne_nil hne
    have hfirst := h first List.mem_cons_self
    have hhead : (joinLines (first :: rest)).head? = first.head? := by
      cases rest with
      | nil => rw [joinLines, List.intercalate_singleton]
      | cons next rest =>
        rw [joinLines, List.intercalate_cons_cons, List.append_assoc,
          List.head?_append_of_ne_nil _ hfirst.ne_nil]
    rw [hhead]
    exact hfirst.isBlank_of_head?
  · obtain ⟨front, last, rfl⟩ := (List.eq_nil_or_concat' contents).resolve_left hne
    have hlast := h last (List.mem_append_right _ List.mem_cons_self)
    rw [joinLines_append_singleton, List.getLast?_append_of_ne_nil _ hlast.ne_nil]
    exact hlast.isBlank_of_getLast?

/-- The block is cleaned to the lines that it was written for. -/
theorem content_decorated (hne : contents ≠ []) :
    DocBlock.content (decorated contents) = joinLines contents := by
  have hclean : contents.map (DocBlock.cleanLine ∘ decorate) = contents := by
    have hid : contents.map (DocBlock.cleanLine ∘ decorate) = contents.map id :=
      List.map_congr_left fun content hcontent ↦ (h content hcontent).cleanLine_decorate
    rw [hid, List.map_id]
  have hkept : contents.filter (!isBlankLine ·) = contents := by
    apply List.filter_eq_self.mpr
    intro content hcontent
    rw [(h content hcontent).isBlankLine]
    rfl
  have hopener : DocBlock.cleanLine docOpener = [] := rfl
  have hcloser : DocBlock.cleanLine (' ' :: docCloser) = [] := rfl
  calc
    _ = trim (joinLines (([] :: contents ++ [[]]).filter (!isBlankLine ·))) := by
      rw [DocBlock.content, decorated, List.map_append, List.map_cons, List.map_map, hclean,
        List.map_singleton, hopener, hcloser]
    _ = trim (joinLines contents) := by simp [hkept]
    _ = joinLines contents := trim_joinLines h hne

theorem joinLines_ne_nil (hne : contents ≠ []) : joinLines contents ≠ [] := by
  obtain ⟨front, last, rfl⟩ := (List.eq_nil_or_concat' contents).resolve_left hne
  have hlast := h last (List.mem_append_right _ List.mem_cons_self)
  rw [joinLines_append_singleton]
  exact List.append_ne_nil_of_right_ne_nil _ hlast.ne_nil

/-- Only the last line of the block closes it. -/
theorem closesDoc_of_mem_opening {line : List Char}
    (hline : line ∈ docOpener :: contents.map decorate) : closesDoc line = false := by
  rcases List.mem_cons.mp hline with rfl | hline
  · decide
  · obtain ⟨content, hcontent, rfl⟩ := List.mem_map.mp hline
    exact (h content hcontent).closesDoc_decorate

/-- The block spans the lines that are written for it, in any text. -/
theorem spans_decorated (before after : List (List Char)) :
    (decoratedBlock before contents).Spans (before ++ (decorated contents ++ after)) := by
  have hlength := length_decorated contents
  have hopening := length_opening contents
  refine ⟨?_, ?_, ?_, ?_, .inl ?_⟩
  · rw [decoratedBlock_first]
    exact congrArg (Option.any opensDoc) (getElem?_decorated before after (Nat.succ_pos _))
  · rw [decoratedBlock_first, decoratedBlock_last]
    omega
  · rw [decoratedBlock_last, List.length_append, List.length_append, hlength]
    omega
  · intro number hfirst hlast
    rw [decoratedBlock_first] at hfirst
    rw [decoratedBlock_last] at hlast
    obtain ⟨index, rfl⟩ := Nat.exists_eq_add_of_le hfirst
    rw [getElem?_decorated before after (by omega), decorated, List.getElem?_append_left (by omega),
      Option.any_eq_false]
    intro line hline
    exact closesDoc_of_mem_opening h (List.mem_of_getElem? hline)
  · exact any_closesDoc_decorated before contents after

end Contents

end ScriptSense.Script
