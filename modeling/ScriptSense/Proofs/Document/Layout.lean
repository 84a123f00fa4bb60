import ScriptSense.Document.Layout
import ScriptSense.Proofs.Text.Lines
import ScriptSense.Proofs.Text.Trim

/-!
# Indented lines and matching braces

Indentation is made of spaces and tabs, so an indented line has the same trimmed text, and the lines
of an indented text are the indented lines.

The depth of a line is settled by the depth of the line above it, by whether that line ends with an
opening brace, and by whether the line itself starts with a closing one. The lines after an opening
brace stay deeper than its own line up to the line that closes it, and this one is as deep again.
-/

namespace ScriptSense.Layout

open Text

section Indent

variable {style : IndentStyle} {depth : Nat} {line : List Char} {c : Char}

theorem eq_of_mem_indentation (h : c ∈ (List.replicate depth (unit style)).flatten) :
    c = ' ' ∨ c = '\t' := by
  obtain ⟨piece, hpiece, hc⟩ := List.mem_flatten.mp h
  rw [List.eq_of_mem_replicate hpiece, unit] at hc
  split at hc
  · exact .inl (List.eq_of_mem_replicate hc)
  · exact .inr (List.mem_singleton.mp hc)

theorem isBlankLine_indentation (style : IndentStyle) (depth : Nat) :
    isBlankLine (List.replicate depth (unit style)).flatten := by
  rw [isBlankLine_iff]
  intro c hc
  rcases eq_of_mem_indentation hc with rfl | rfl <;> decide

@[simp] theorem trim_indent (style : IndentStyle) (depth : Nat) (line : List Char) :
    trim (indent style depth line) = trim line := by
  have h := trim_margins (isBlankLine_indentation style depth) isBlankLine_nil (trim line)
  rwa [List.append_nil, trim_trim] at h

theorem newline_notMem_indent (h : '\n' ∉ line) : '\n' ∉ indent style depth line := by
  intro hmem
  rcases List.mem_append.mp hmem with hmem | hmem
  · rcases eq_of_mem_indentation hmem with heq | heq <;> exact absurd heq (by decide)
  · exact h (mem_of_mem_trim hmem)

theorem getLast?_indent_ne_return : (indent style depth line).getLast? ≠ some '\r' := by
  intro hlast
  rw [indent, List.getLast?_append] at hlast
  cases htrim : (trim line).getLast? with
  | none =>
    rw [htrim, Option.none_or] at hlast
    rcases eq_of_mem_indentation (List.mem_of_getLast? hlast) with heq | heq <;>
      exact absurd heq (by decide)
  | some c =>
    rw [htrim, Option.some_or] at hlast
    rw [Option.some.inj hlast] at htrim
    exact absurd (isBlank_of_getLast?_trim htrim) (by decide)

end Indent

theorem mem_indentLines {style : IndentStyle} {lines : List (List Char)} {line : List Char}
    (h : line ∈ indentLines style lines) :
    ∃ depth, ∃ old ∈ lines, line = indent style depth old := by
  rw [indentLines, ← List.map_uncurry_zip_eq_zipWith] at h
  obtain ⟨⟨depth, old⟩, hmem, rfl⟩ := List.mem_map.mp h
  exact ⟨depth, old, (List.of_mem_zip hmem).2, rfl⟩

theorem map_trim_zipWith_indent (style : IndentStyle) (level : Nat) (lines : List (List Char)) :
    (List.zipWith (indent style) (depths level lines) lines).map trim = lines.map trim := by
  induction lines generalizing level with
  | nil => rfl
  | cons line rest ih =>
    rw [depths, List.zipWith_cons_cons, List.map_cons, trim_indent, ih, List.map_cons]

theorem map_trim_indentLines (style : IndentStyle) (lines : List (List Char)) :
    (indentLines style lines).map trim = lines.map trim :=
  map_trim_zipWith_indent style 0 lines

/-- The lines of a formatted text are the indented lines of the text. -/
theorem lines_format (text : String) (style : IndentStyle) :
    lines (format text style).newText = indentLines style (lines text) := by
  have hne : indentLines style (lines text) ≠ [] := by
    intro hnil
    have hmap := map_trim_indentLines style (lines text)
    rw [hnil] at hmap
    exact lines_ne_nil text (List.map_eq_nil_iff.mp hmap.symm)
  apply lines_joinLines hne
  · intro line hline
    obtain ⟨depth, old, hold, rfl⟩ := mem_indentLines hline
    exact newline_notMem_indent (newline_notMem_of_mem_lines hold)
  · intro line hline
    obtain ⟨depth, old, hold, rfl⟩ := mem_indentLines hline
    exact getLast?_indent_ne_return

theorem map_trim_lines_format (text : String) (style : IndentStyle) :
    (lines (format text style).newText).map trim = (lines text).map trim := by
  rw [lines_format, map_trim_indentLines]

@[simp] theorem ownDepth_trim (level : Nat) (line : List Char) :
    ownDepth level (trim line) = ownDepth level line := by
  rw [ownDepth, startsWithCloser, trim_trim, ownDepth, startsWithCloser]

@[simp] theorem depthAfter_trim (depth : Nat) (line : List Char) :
    depthAfter depth (trim line) = depthAfter depth line := by
  rw [depthAfter, endsWithOpener, trim_trim, depthAfter, endsWithOpener]

theorem depths_map_trim (level : Nat) (lines : List (List Char)) :
    depths level (lines.map trim) = depths level lines := by
  induction lines generalizing level with
  | nil => rfl
  | cons line rest ih =>
    rw [List.map_cons, depths, ownDepth_trim, depthAfter_trim, ih, depths]

/-- What surrounds the trimmed lines does not count. -/
theorem indentLines_map_trim (style : IndentStyle) (lines : List (List Char)) :
    indentLines style (lines.map trim) = indentLines style lines := by
  rw [indentLines, depths_map_trim, List.zipWith_map_right, indentLines]
  congr 1
  funext depth line
  rw [indent, trim_trim, indent]

/-- Texts have one indented form if and only if they have the same trimmed lines. -/
theorem newText_eq_iff {text other : String} {style : IndentStyle} :
    (format text style).newText = (format other style).newText ↔
      (lines text).map trim = (lines other).map trim := by
  constructor
  · intro h
    rw [← map_trim_lines_format text style, h, map_trim_lines_format]
  · intro h
    rw [format, format, ← indentLines_map_trim style (lines text), h, indentLines_map_trim]

/-- A text that was indented before is indented like the text it was made from. -/
theorem newText_format (text : String) (first second : IndentStyle) :
    (format (format text first).newText second).newText = (format text second).newText :=
  newText_eq_iff.mpr (map_trim_lines_format text first)

/-- The indented text has the trimmed lines of the text, and before each of them as many units as
`depth` tells. -/
def Writes (text : String) (style : IndentStyle) (depth : Nat → Nat) : Prop :=
  (format text style).newText.toList =
    joinLines ((lines text).mapIdx fun number line ↦ indent style (depth number) line)

/-- The line comes after `opener`, starts with a closing brace and is as deep as `opener`, and all
lines in between are deeper. -/
structure Closes (lines : List (List Char)) (depth : Nat → Nat) (opener closer : Nat) : Prop where
  below : opener < closer
  starts : lines[closer]?.any startsWithCloser
  depth_eq : depth closer = depth opener
  deeper : ∀ between, opener < between → between < closer → depth opener < depth between

/-- The depths of the lines follow their braces. -/
structure Nests (lines : List (List Char)) (depth : Nat → Nat) : Prop where
  start : depth 0 = 0
  rises : ∀ number, number + 1 < lines.length → depth number < depth (number + 1) →
    lines[number]?.any endsWithOpener ∧ depth (number + 1) = depth number + 1
  falls : ∀ number, number + 1 < lines.length → depth (number + 1) < depth number →
    lines[number + 1]?.any startsWithCloser ∧ depth number = depth (number + 1) + 1
  matched : ∀ opener, lines[opener]?.any endsWithOpener →
    (∀ later, opener < later → later < lines.length → depth opener < depth later) ∨
      ∃ closer, Closes lines depth opener closer

/-- The depth of a numbered line. -/
def depthAt (lines : List (List Char)) (number : Nat) : Nat :=
  (depths 0 lines).getD number 0

theorem le_depthAfter (depth : Nat) (line : List Char) : depth ≤ depthAfter depth line := by
  unfold depthAfter
  split <;> omega

theorem depthAfter_of_lt {depth : Nat} {line : List Char} (h : depth < depthAfter depth line) :
    endsWithOpener line ∧ depthAfter depth line = depth + 1 := by
  unfold depthAfter at h ⊢
  split
  · rename_i hopener
    exact ⟨hopener, rfl⟩
  · rename_i hopener
    simp [hopener] at h

theorem ownDepth_le (level : Nat) (line : List Char) : ownDepth level line ≤ level := by
  unfold ownDepth
  split <;> omega

theorem ownDepth_of_lt {level : Nat} {line : List Char} (h : ownDepth level line < level) :
    startsWithCloser line ∧ level = ownDepth level line + 1 := by
  unfold ownDepth at h ⊢
  split
  · rename_i hcloser
    simp only [hcloser, if_true] at h
    exact ⟨hcloser, by omega⟩
  · rename_i hcloser
    simp [hcloser] at h

theorem length_depths (level : Nat) (lines : List (List Char)) :
    (depths level lines).length = lines.length := by
  induction lines generalizing level with
  | nil => rfl
  | cons line rest ih => rw [depths, List.length_cons, ih, List.length_cons]

theorem getD_depths_succ {lines : List (List Char)} {number : Nat} {line next : List Char}
    (hline : lines[number]? = some line) (hnext : lines[number + 1]? = some next) (level : Nat) :
    (depths level lines).getD (number + 1) 0 =
      ownDepth (depthAfter ((depths level lines).getD number 0) line) next := by
  induction lines generalizing level number with
  | nil => simp at hline
  | cons first rest ih =>
    rw [depths, List.getD_cons_succ]
    cases number with
    | zero =>
      obtain rfl : first = line := by simpa using hline
      obtain ⟨others, rfl⟩ : ∃ others, rest = next :: others := by
        cases rest with
        | nil => simp at hnext
        | cons second others => exact ⟨others, by simpa using hnext⟩
      rfl
    | succ number => exact ih hline hnext _

theorem depthAt_zero (lines : List (List Char)) : depthAt lines 0 = 0 := by
  cases lines with
  | nil => rfl
  | cons line rest =>
    rw [depthAt, depths, List.getD_cons_zero]
    exact Nat.le_zero.mp (ownDepth_le 0 line)

/-- A line gets its depth from the level that the line above it leaves. -/
theorem depthAt_succ {lines : List (List Char)} {number : Nat} {line next : List Char}
    (hline : lines[number]? = some line) (hnext : lines[number + 1]? = some next) :
    depthAt lines (number + 1) = ownDepth (depthAfter (depthAt lines number) line) next :=
  getD_depths_succ hline hnext 0

/-! ## Braces -/

section Braces

variable {lines : List (List Char)} {number : Nat}

theorem exists_line (h : number < lines.length) : ∃ line, lines[number]? = some line :=
  ⟨lines[number], List.getElem?_eq_getElem h⟩

theorem depthAt_rises (hin : number + 1 < lines.length)
    (h : depthAt lines number < depthAt lines (number + 1)) :
    lines[number]?.any endsWithOpener ∧ depthAt lines (number + 1) = depthAt lines number + 1 := by
  obtain ⟨line, hline⟩ := exists_line (Nat.lt_of_succ_lt hin)
  obtain ⟨next, hnext⟩ := exists_line hin
  have hstep := depthAt_succ hline hnext
  have hown := ownDepth_le (depthAfter (depthAt lines number) line) next
  obtain ⟨hopener, hafter⟩ := depthAfter_of_lt (Nat.lt_of_lt_of_le (hstep ▸ h) hown)
  exact ⟨by rwa [hline], by omega⟩

theorem depthAt_falls (hin : number + 1 < lines.length)
    (h : depthAt lines (number + 1) < depthAt lines number) :
    lines[number + 1]?.any startsWithCloser ∧
      depthAt lines number = depthAt lines (number + 1) + 1 := by
  obtain ⟨line, hline⟩ := exists_line (Nat.lt_of_succ_lt hin)
  obtain ⟨next, hnext⟩ := exists_line hin
  have hstep := depthAt_succ hline hnext
  have hafter := le_depthAfter (depthAt lines number) line
  obtain ⟨hcloser, hlevel⟩ := ownDepth_of_lt (Nat.lt_of_lt_of_le (hstep ▸ h) hafter)
  exact ⟨by rwa [hnext], by omega⟩

/-- A line that is not deeper than an opener, while the line above it leaves a deeper level, closes
the opener. -/
theorem depthAt_closes {depth : Nat} {line next : List Char} (hline : lines[number]? = some line)
    (hnext : lines[number + 1]? = some next)
    (habove : depth < depthAfter (depthAt lines number) line)
    (hle : depthAt lines (number + 1) ≤ depth) :
    startsWithCloser next ∧ depthAt lines (number + 1) = depth := by
  have hstep := depthAt_succ hline hnext
  obtain ⟨hcloser, hlevel⟩ := ownDepth_of_lt (Nat.lt_of_le_of_lt (hstep ▸ hle) habove)
  exact ⟨hcloser, by omega⟩

/-- Up to any line after an opener, all lines are deeper, or one of them closes the opener. -/
theorem deeper_or_closes {opener : Nat} (hopener : lines[opener]?.any endsWithOpener) (stop : Nat)
    (hstop : stop ≤ lines.length) :
    (∀ later, opener < later → later < stop → depthAt lines opener < depthAt lines later) ∨
      ∃ closer, Closes lines (depthAt lines) opener closer := by
  induction stop with
  | zero => exact .inl fun later _ hlater ↦ absurd hlater (Nat.not_lt_zero later)
  | succ number ih =>
    rcases ih (Nat.le_of_succ_le hstop) with hdeeper | hcloses
    · by_cases hnumber : number ≤ opener
      · exact .inl fun later hlater hlt ↦ by omega
      by_cases hdeep : depthAt lines opener < depthAt lines number
      · left
        intro later hlater hlt
        rcases Nat.lt_succ_iff_lt_or_eq.mp hlt with hlt | rfl
        · exact hdeeper later hlater hlt
        · exact hdeep
      · obtain ⟨above, rfl⟩ := Nat.exists_eq_add_one_of_ne_zero (n := number) (by omega)
        obtain ⟨line, hline⟩ : ∃ line, lines[above]? = some line := exists_line (by omega)
        obtain ⟨next, hnext⟩ : ∃ line, lines[above + 1]? = some line := exists_line (by omega)
        -- The line above is the opener itself or one of the deeper lines after it.
        have habove : depthAt lines opener < depthAfter (depthAt lines above) line := by
          rcases Nat.lt_or_eq_of_le (Nat.le_of_lt_succ (Nat.not_le.mp hnumber)) with hlt | rfl
          · exact Nat.lt_of_lt_of_le (hdeeper above hlt (Nat.lt_succ_self above))
              (le_depthAfter _ line)
          · rw [hline, Option.any_some] at hopener
            rw [depthAfter, if_pos hopener]
            exact Nat.lt_succ_self _
        obtain ⟨hcloser, hdepth⟩ := depthAt_closes hline hnext habove (Nat.not_lt.mp hdeep)
        exact .inr ⟨above + 1, Nat.not_le.mp hnumber, by rwa [hnext], hdepth, hdeeper⟩
    · exact .inr hcloses

end Braces

theorem nests_depthAt (lines : List (List Char)) : Nests lines (depthAt lines) where
  start := depthAt_zero lines
  rises _ := depthAt_rises
  falls _ := depthAt_falls
  matched _ hopener := deeper_or_closes hopener lines.length (Nat.le_refl _)

theorem length_unit_pos (style : IndentStyle) : 0 < (unit style).length := by
  unfold unit
  split
  · rw [List.length_replicate]
    split
    · decide
    · rename_i hsize
      exact Nat.pos_of_ne_zero hsize
  · exact Nat.one_pos

theorem indent_injective (style : IndentStyle) (line : List Char) :
    Function.Injective fun depth ↦ indent style depth line := by
  intro depth other h
  have hlength : depth * (unit style).length = other * (unit style).length := by
    simpa [indent] using congrArg List.length h
  exact Nat.eq_of_mul_eq_mul_right (length_unit_pos style) hlength

theorem indentLines_eq_mapIdx (style : IndentStyle) (lines : List (List Char)) :
    indentLines style lines =
      lines.mapIdx fun number line ↦ indent style (depthAt lines number) line := by
  apply List.ext_getElem?
  intro number
  have hlength := length_depths 0 lines
  rw [indentLines, List.getElem?_zipWith, List.getElem?_mapIdx, depthAt,
    List.getD_eq_getElem?_getD]
  cases hdepth : (depths 0 lines)[number]? with
  | some depth => cases lines[number]? <;> rfl
  | none =>
    rw [List.getElem?_eq_none_iff, hlength, ← List.getElem?_eq_none_iff] at hdepth
    rw [hdepth]
    rfl

/-- Lines that are indented in two ways make the same text only if the ways are the same. -/
theorem writes_iff {text : String} {style : IndentStyle} {depth : Nat → Nat} :
    Writes text style depth ↔
      ∀ number < (lines text).length, depth number = depthAt (lines text) number := by
  have hwritten : Writes text style (depthAt (lines text)) := by
    rw [Writes, format, String.toList_ofList, indentLines_eq_mapIdx]
  have hlines : lines (String.ofList (joinLines ((lines text).mapIdx fun number line ↦
      indent style (depth number) line))) =
        (lines text).mapIdx fun number line ↦ indent style (depth number) line := by
    apply lines_joinLines
    · intro hnil
      exact lines_ne_nil text (List.mapIdx_eq_nil_iff.mp hnil)
    · intro line hline
      obtain ⟨number, hnumber, rfl⟩ := List.mem_mapIdx.mp hline
      exact newline_notMem_indent (newline_notMem_of_mem_lines (List.getElem_mem hnumber))
    · intro line hline
      obtain ⟨number, hnumber, rfl⟩ := List.mem_mapIdx.mp hline
      exact getLast?_indent_ne_return
  constructor
  · intro h number hnumber
    have hsame : (lines text).mapIdx (fun number line ↦ indent style (depth number) line) =
        (lines text).mapIdx fun number line ↦
          indent style (depthAt (lines text) number) line := by
      rw [← hlines, ← h, String.ofList_toList, lines_format, indentLines_eq_mapIdx]
    have hline := List.mapIdx_eq_mapIdx_iff.mp hsame number hnumber
    exact indent_injective style _ hline
  · intro h
    refine hwritten.trans (congrArg joinLines ?_)
    rw [List.mapIdx_eq_mapIdx_iff]
    intro number hnumber
    rw [h number hnumber]

/-- The depths of the lines of an indented text can be read off the text and are the same in all
styles. They start at zero and change by one level at a time, up after an opening brace at the end
of a line and down at a closing brace at the start of one. The lines after an opening brace are
deeper than its own line, all of them or up to one that starts with a closing brace and is as deep
as the line of the opening brace. -/
theorem braces_line_up (text : String) : ∃ depth : Nat → Nat,
    (∀ style other, Writes text style other ↔
      ∀ number < (lines text).length, other number = depth number) ∧
    Nests (lines text) depth :=
  ⟨depthAt (lines text), fun _ _ ↦ writes_iff, nests_depthAt (lines text)⟩

/-- A stray closing brace, a line that closes and opens, and a brace that is never closed. -/
example : depths 0 (lines "\x7d\nif a \x7b\n\x7d else \x7b\nb\n\x7d\n\x7b\n") =
    [0, 0, 0, 1, 0, 0, 1] := by
  decide

end ScriptSense.Layout
