import Mathlib.Data.List.Forall2
import ScriptSense.Text.Line

/-!
# Joining lines and reading them back

A text that is joined from lines has these lines, as long as none of them has a line feed on it or
ends with a carriage return. A line feed can be written with a carriage return before it: in a text
that has no carriage returns, doing so at any of the line feeds keeps all lines as they are.
-/

namespace ScriptSense.Text

theorem splitAt_eq_splitOnP {α : Type} (isMark : α → Bool) (xs : List α) :
    splitAt isMark xs = xs.splitOnP isMark := by
  induction xs with
  | nil => rfl
  | cons x rest ih =>
    rw [splitAt, List.splitOnP_cons_eq_if_modifyHead, ih]
    split
    · rfl
    · cases hrest : rest.splitOnP isMark with
      | nil => exact absurd hrest (List.splitOnP_ne_nil isMark rest)
      | cons first others => rfl

theorem isMark_of_mem_splitAt {α : Type} {isMark : α → Bool} {xs part : List α} {x : α}
    (hpart : part ∈ splitAt isMark xs) (hx : x ∈ part) : isMark x = false := by
  induction xs generalizing part with
  | nil =>
    rw [splitAt, List.mem_singleton] at hpart
    simp [hpart] at hx
  | cons y rest ih =>
    unfold splitAt at hpart
    split at hpart
    · rcases List.mem_cons.mp hpart with rfl | hpart
      · simp at hx
      · exact ih hpart hx
    · rename_i hy
      split at hpart
      · rename_i hrest
        exact absurd hrest (splitAt_ne_nil isMark rest)
      · rename_i first others hrest
        rw [hrest] at ih
        rcases List.mem_cons.mp hpart with rfl | hpart
        · rcases List.mem_cons.mp hx with rfl | hx
          · simpa using hy
          · exact ih List.mem_cons_self hx
        · exact ih (List.mem_cons_of_mem _ hpart) hx

/-- Parts without marks that are joined by a mark are read back as they were. -/
theorem splitAt_append_flatMap {α : Type} {isMark : α → Bool} {mark : α} (hmark : isMark mark)
    {first : List α} {rest : List (List α)}
    (h : ∀ part ∈ first :: rest, ∀ x ∈ part, isMark x = false) :
    splitAt isMark (first ++ rest.flatMap (mark :: ·)) = first :: rest := by
  induction rest generalizing first with
  | nil =>
    rw [List.flatMap_nil, List.append_nil, splitAt_eq_splitOnP,
      List.splitOnP_eq_singleton (h first List.mem_cons_self)]
  | cons second rest ih =>
    obtain ⟨hfirst, hrest⟩ := List.forall_mem_cons.mp h
    have hsplit := ih hrest
    rw [splitAt_eq_splitOnP] at hsplit
    rw [List.flatMap_cons, List.cons_append, splitAt_eq_splitOnP,
      List.splitOnP_append_cons first _ hmark, List.splitOnP_eq_singleton hfirst, hsplit,
      List.singleton_append]

/-- A line feed ends the lines of one text and starts those of another. -/
theorem lines_append_newline (text rest : String) :
    lines (text ++ "\n" ++ rest) = lines text ++ lines rest := by
  have hchars : (text ++ "\n" ++ rest).toList = text.toList ++ '\n' :: rest.toList := by simp
  rw [lines, hchars, splitAt_eq_splitOnP, List.splitOnP_append_cons text.toList rest.toList rfl,
    List.map_append, ← splitAt_eq_splitOnP, ← splitAt_eq_splitOnP, lines, lines]

theorem newline_notMem_of_mem_lines {text : String} {line : List Char} (h : line ∈ lines text) :
    '\n' ∉ line := by
  obtain ⟨part, hpart, rfl⟩ := List.mem_map.mp h
  intro hmem
  have hnewline : '\n' ∈ part := by
    unfold dropReturn at hmem
    split at hmem
    · exact List.dropLast_subset part hmem
    · exact hmem
  exact absurd (isMark_of_mem_splitAt hpart hnewline) (by decide)

theorem joinLines_append_singleton (others : List (List Char)) (last : List Char) :
    joinLines (others ++ [last]) = others.flatMap (· ++ ['\n']) ++ last := by
  induction others with
  | nil => simp [joinLines]
  | cons line rest ih =>
    obtain ⟨next, more, hnext⟩ := List.exists_cons_of_ne_nil
      (List.append_ne_nil_of_right_ne_nil rest (List.cons_ne_nil last []))
    rw [joinLines, hnext] at ih
    rw [joinLines, List.cons_append, hnext, List.intercalate_cons_cons, ih, List.flatMap_cons,
      List.append_assoc (line ++ ['\n'])]

/-- Joined lines are read back as they were. -/
theorem lines_joinLines {all : List (List Char)} (hne : all ≠ [])
    (hnewline : ∀ line ∈ all, '\n' ∉ line) (hreturn : ∀ line ∈ all, line.getLast? ≠ some '\r') :
    lines (String.ofList (joinLines all)) = all := by
  have hkept : all.map dropReturn = all.map id := by
    apply List.map_congr_left
    intro line hline
    rw [dropReturn, if_neg (hreturn line hline), id]
  have hsplit : splitAt (· == '\n') (joinLines all) = all := by
    rw [splitAt_eq_splitOnP, ← List.splitOn_eq_splitOnP]
    exact List.splitOn_intercalate '\n' hnewline hne
  calc
    _ = (splitAt (· == '\n') (joinLines all)).map dropReturn := by
      rw [lines, String.toList_ofList]
    _ = all.map id := by rw [hsplit, hkept]
    _ = all := List.map_id all

/-- Any lines without line feeds are the lines of a text: with carriage returns before the line
feeds, no line loses one of its own. -/
theorem exists_lines_eq {all : List (List Char)} (hne : all ≠ [])
    (hnewline : ∀ line ∈ all, '\n' ∉ line) : ∃ text, lines text = all := by
  have hkept : (all.map (· ++ ['\r'])).map dropReturn = all.map id := by
    rw [List.map_map]
    apply List.map_congr_left
    intro line _
    rw [Function.comp_apply, dropReturn, List.getLast?_concat, if_pos rfl, List.dropLast_concat, id]
  have hsplit : splitAt (· == '\n') (joinLines (all.map (· ++ ['\r']))) =
      all.map (· ++ ['\r']) := by
    rw [splitAt_eq_splitOnP, ← List.splitOn_eq_splitOnP]
    apply List.splitOn_intercalate '\n'
    · rw [List.forall_mem_map]
      intro line hline
      simpa using hnewline line hline
    · simpa using hne
  refine ⟨String.ofList (joinLines (all.map (· ++ ['\r']))), ?_⟩
  rw [lines, String.toList_ofList, hsplit, hkept, List.map_id]

/-- The second text is the first one with a carriage return put before some of its line feeds. -/
inductive ReturnsAdded : List Char → List Char → Prop
  | nil : ReturnsAdded [] []
  | keep (c : Char) {text other : List Char} :
      ReturnsAdded text other → ReturnsAdded (c :: text) (c :: other)
  | add {text other : List Char} :
      ReturnsAdded text other → ReturnsAdded ('\n' :: text) ('\r' :: '\n' :: other)

/-- The texts are the same, or the first has no carriage returns and the second has some in its line
endings. -/
def EndsAlike (text other : String) : Prop :=
  text = other ∨ '\r' ∉ text.toList ∧ ReturnsAdded text.toList other.toList

/-- A piece between line feeds that has no carriage return, and the same piece, which may have one
at its end. -/
def MayEndInReturn (piece other : List Char) : Prop :=
  '\r' ∉ piece ∧ (other = piece ∨ other = piece ++ ['\r'])

theorem splitAt_cons_of_isMark {α : Type} (isMark : α → Bool) {x : α} (h : isMark x)
    (rest : List α) : splitAt isMark (x :: rest) = [] :: splitAt isMark rest := by
  rw [splitAt, if_pos h]

theorem splitAt_cons_of_not_isMark {α : Type} (isMark : α → Bool) {x : α} {rest first : List α}
    {others : List (List α)} (h : isMark x = false)
    (hrest : splitAt isMark rest = first :: others) :
    splitAt isMark (x :: rest) = (x :: first) :: others := by
  simp [splitAt, h, hrest]

/-- A carriage return before a line feed goes to the end of the piece before the line feed. -/
theorem mayEndInReturn_splitAt {text other : List Char} (h : ReturnsAdded text other)
    (hreturn : '\r' ∉ text) : List.Forall₂ MayEndInReturn
      (splitAt (· == '\n') text) (splitAt (· == '\n') other) := by
  have hempty : MayEndInReturn [] [] := ⟨List.not_mem_nil, .inl rfl⟩
  induction h with
  | nil => exact .cons hempty .nil
  | @keep c text other _ ih =>
    obtain ⟨hc, htext⟩ := not_or.mp (mt List.mem_cons.mpr hreturn)
    have hpieces := ih htext
    cases hmark : c == '\n' with
    | true =>
      rw [splitAt_cons_of_isMark (· == '\n') hmark, splitAt_cons_of_isMark (· == '\n') hmark]
      exact .cons hempty hpieces
    | false =>
      -- The character goes to the front of the first piece on both sides.
      obtain ⟨first, others, hsplit⟩ :=
        List.exists_cons_of_ne_nil (splitAt_ne_nil (· == '\n') text)
      rw [hsplit] at hpieces
      obtain ⟨otherFirst, otherOthers, hfirst, hothers, hother⟩ :=
        List.forall₂_cons_left_iff.mp hpieces
      rw [splitAt_cons_of_not_isMark (· == '\n') hmark hsplit,
        splitAt_cons_of_not_isMark (· == '\n') hmark hother]
      refine .cons ⟨?_, ?_⟩ hothers
      · exact List.not_mem_cons_of_ne_of_not_mem hc hfirst.1
      · exact hfirst.2.imp (congrArg (c :: ·)) (congrArg (c :: ·))
  | @add text other _ ih =>
    have htext : '\r' ∉ text := mt (List.mem_cons_of_mem _) hreturn
    have hfeed : ('\n' == '\n') = true := rfl
    have hother := splitAt_cons_of_isMark (· == '\n') hfeed other
    rw [splitAt_cons_of_isMark (· == '\n') hfeed,
      splitAt_cons_of_not_isMark (· == '\n') (by decide) hother]
    exact .cons ⟨List.not_mem_nil, .inr rfl⟩ (ih htext)

theorem dropReturn_eq_of_mayEndInReturn {piece other : List Char} (h : MayEndInReturn piece other) :
    dropReturn piece = dropReturn other := by
  have hpiece : dropReturn piece = piece := by
    unfold dropReturn
    rw [if_neg]
    intro hlast
    exact h.1 (List.mem_of_getLast? hlast)
  rcases h.2 with rfl | rfl
  · rfl
  · rw [hpiece, dropReturn, List.getLast?_concat, if_pos rfl, List.dropLast_concat]

/-- Texts that differ in their line endings have the same lines. -/
theorem EndsAlike.lines_eq {text other : String} (h : EndsAlike text other) :
    lines text = lines other := by
  rcases h with rfl | ⟨hreturn, hadded⟩
  · rfl
  · have hpieces := mayEndInReturn_splitAt hadded hreturn
    unfold lines
    rw [← List.forall₂_eq_eq_eq, List.forall₂_map_left_iff, List.forall₂_map_right_iff]
    exact hpieces.imp fun _ _ ↦ dropReturn_eq_of_mayEndInReturn

end ScriptSense.Text
