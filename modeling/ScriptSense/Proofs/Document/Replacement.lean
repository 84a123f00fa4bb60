import ScriptSense.Proofs.Document.Layout
import ScriptSense.Proofs.Text.Cuts
import ScriptSense.Proofs.Text.Utf8

/-!
# What an edit leaves of a text

An edit replaces the bytes between two positions. The edit that indents a text starts at its first
byte and ends with its last line. A carriage return after the last line, with no line feed to
follow, is on no line, and so it is all that is left of the text.
-/

namespace ScriptSense

namespace Text

/-- The byte at which a line begins, right after the line feed before it. -/
def lineStart : List Char → Nat → Nat
  | _, 0 => 0
  | [], _ + 1 => 0
  | c :: rest, number + 1 =>
    c.utf8Size + lineStart rest (if c = '\n' then number else number + 1)

/-- The byte of a text at a position. -/
def byteAt (text : String) (position : Position) : Nat :=
  lineStart text.toList position.line +
    offsetAt ((lines text).getD position.line []) position.column

/-- The carriage return that a text ends with, if it ends with one. -/
def finalReturn (text : List Char) : List Char :=
  if text.getLast? = some '\r' then ['\r'] else []

end Text

open Text

/-- The bytes of the text after the edit. -/
def Edit.applyTo (edit : Edit) (text : String) : List UInt8 :=
  (encodeUtf8 text.toList).take (byteAt text edit.range.start) ++
    (encodeUtf8 edit.newText.toList ++
      (encodeUtf8 text.toList).drop (byteAt text edit.range.stop))

namespace Text

theorem dropReturn_append_finalReturn (line : List Char) :
    dropReturn line ++ finalReturn line = line := by
  unfold dropReturn finalReturn
  split
  · rename_i hlast
    exact List.dropLast_append_getLast? '\r' hlast
  · exact List.append_nil line

/-- A text is its last line after its other lines, each with a line feed. -/
theorem exists_lastLine (text : List Char) : ∃ others last,
    splitAt (· == '\n') text = others ++ [last] ∧
      text = others.flatMap (· ++ ['\n']) ++ last ∧ ∀ line ∈ others, '\n' ∉ line := by
  have hsplit := List.dropLast_append_getLast (splitAt_ne_nil (· == '\n') text)
  generalize (splitAt (· == '\n') text).dropLast = others at hsplit
  generalize (splitAt (· == '\n') text).getLast _ = last at hsplit
  refine ⟨others, last, hsplit.symm, ?_, ?_⟩
  · rw [← joinLines_append_singleton, hsplit, splitAt_eq_splitOnP, ← List.splitOn_eq_splitOnP,
      joinLines, List.intercalate_splitOn]
  · intro line hline hmem
    have hpart : line ∈ splitAt (· == '\n') text := hsplit ▸ List.mem_append_left [last] hline
    exact absurd (isMark_of_mem_splitAt hpart hmem) (by decide)

@[simp] theorem lineStart_zero (text : List Char) : lineStart text 0 = 0 := by
  cases text <;> rfl

theorem lineStart_append_newline {line : List Char} (h : '\n' ∉ line) (rest : List Char)
    (number : Nat) :
    lineStart (line ++ '\n' :: rest) (number + 1) = byteSize line + 1 + lineStart rest number := by
  induction line with
  | nil => rfl
  | cons c line ih =>
    obtain ⟨hc, hline⟩ := not_or.mp (mt List.mem_cons.mpr h)
    rw [List.cons_append, lineStart, if_neg (Ne.symm hc), ih hline, byteSize_cons]
    omega

theorem lineStart_flatMap {others : List (List Char)} (h : ∀ line ∈ others, '\n' ∉ line)
    (last : List Char) :
    lineStart (others.flatMap (· ++ ['\n']) ++ last) others.length =
      byteSize (others.flatMap (· ++ ['\n'])) := by
  induction others with
  | nil => exact lineStart_zero last
  | cons line rest ih =>
    obtain ⟨hline, hrest⟩ := List.forall_mem_cons.mp h
    have hfeed : byteSize ['\n'] = 1 := rfl
    rw [List.flatMap_cons, List.append_assoc, List.append_assoc, List.singleton_append,
      List.length_cons, lineStart_append_newline hline, ih hrest, byteSize_append, byteSize_append,
      hfeed]

/-- A text ends with a carriage return if and only if its last line does. -/
theorem finalReturn_append (others : List (List Char)) (last : List Char) :
    finalReturn (others.flatMap (· ++ ['\n']) ++ last) = finalReturn last := by
  have hfeed : (others.flatMap (· ++ ['\n'])).getLast? ≠ some '\r' := by
    rcases List.eq_nil_or_concat others with rfl | ⟨rest, line, rfl⟩
    · simp
    · simp [List.flatMap_append]
  have hiff : (others.flatMap (· ++ ['\n']) ++ last).getLast? = some '\r' ↔
      last.getLast? = some '\r' := by
    rw [List.getLast?_append]
    cases last.getLast? <;> simp [hfeed]
  simp only [finalReturn, hiff]

end Text

namespace Layout

theorem byteAt_start (text : String) : byteAt text ⟨0, 0⟩ = 0 := by
  have hcolumn := offsetAt_width [] ((lines text).getD 0 [])
  rw [byteAt, lineStart_zero, Nat.zero_add]
  exact hcolumn

/-- The edit that indents a text ends where the last line does, before a carriage return. -/
theorem byteAt_stop {text : String} {others : List (List Char)} {last : List Char}
    (hsplit : splitAt (· == '\n') text.toList = others ++ [last])
    (htext : text.toList = others.flatMap (· ++ ['\n']) ++ last)
    (hothers : ∀ line ∈ others, '\n' ∉ line) :
    byteAt text (wholeText (lines text)).stop =
      byteSize (others.flatMap (· ++ ['\n']) ++ dropReturn last) := by
  have hlines : lines text = others.map dropReturn ++ [dropReturn last] := by
    rw [lines, hsplit, List.map_append, List.map_singleton]
  have hstop : (wholeText (lines text)).stop = ⟨others.length, width (dropReturn last)⟩ := by
    rw [wholeText, hlines]
    simp
  have hline : (lines text).getD others.length [] = dropReturn last := by
    rw [hlines]
    simp
  have hcolumn := offsetAt_width (dropReturn last) []
  rw [List.append_nil] at hcolumn
  rw [hstop, byteAt, hline, hcolumn, htext, lineStart_flatMap hothers, byteSize_append]

/-- After the edit that indents a text, there is nothing left of the text but a carriage return at
its end. -/
theorem applyTo_format (text : String) (style : IndentStyle) :
    (format text style).applyTo text =
      encodeUtf8 ((format text style).newText.toList ++ finalReturn text.toList) := by
  obtain ⟨others, last, hsplit, htext, hothers⟩ := exists_lastLine text.toList
  have hcut : text.toList =
      (others.flatMap (· ++ ['\n']) ++ dropReturn last) ++ finalReturn text.toList := by
    calc text.toList
      _ = others.flatMap (· ++ ['\n']) ++ (dropReturn last ++ finalReturn last) := by
        rw [dropReturn_append_finalReturn]
        exact htext
      _ = _ := by
        rw [htext, finalReturn_append, List.append_assoc]
  have hrest : (encodeUtf8 text.toList).drop (byteAt text (wholeText (lines text)).stop) =
      encodeUtf8 (finalReturn text.toList) := by
    rw [byteAt_stop hsplit htext hothers]
    conv_lhs => rw [hcut]
    exact drop_encodeUtf8_append _ _
  have hstart : byteAt text (format text style).range.start = 0 := byteAt_start text
  rw [Edit.applyTo, hstart, List.take_zero, List.nil_append, encodeUtf8_append, ← hrest]
  rfl

end Layout

end ScriptSense
