import ScriptSense.Proofs.Text.Margin

/-!
# Literals and marks between blank margins

A quote or a parenthesis is not blank, so the literals and the parentheses of a line with blank
margins are those of the line without the margins.
-/

namespace ScriptSense.Text

section Marks

variable {mark : Char} {before core after : List Char}

theorem takeWhile_ne_append_of_mem (h : mark ∈ core) (after : List Char) :
    (core ++ after).takeWhile (· != mark) = core.takeWhile (· != mark) := by
  induction core with
  | nil => simp at h
  | cons c rest ih =>
    by_cases hc : c = mark
    · simp [hc]
    · have hrest := (List.mem_cons.mp h).resolve_left (Ne.symm hc)
      rw [List.cons_append, List.takeWhile_cons, List.takeWhile_cons, ih hrest]

/-- The text before a mark that stands between margins. -/
theorem takeWhile_ne_margins (hbefore : mark ∉ before) (h : mark ∈ core) (after : List Char) :
    (before ++ core ++ after).takeWhile (· != mark) = before ++ core.takeWhile (· != mark) := by
  rw [List.append_assoc, List.takeWhile_append_of_pos, takeWhile_ne_append_of_mem h]
  intro c hc
  simpa using ne_of_mem_of_not_mem hc hbefore

theorem dropEndWhile_ne_ne_nil (h : mark ∈ core) : dropEndWhile (· != mark) core ≠ [] := by
  simpa [dropEndWhile, List.dropWhile_eq_nil_iff] using h

/-- The text through a mark that stands between margins. -/
theorem dropEndWhile_ne_margins (h : mark ∈ core) (hafter : mark ∉ after) (before : List Char) :
    dropEndWhile (· != mark) (before ++ core ++ after) =
      before ++ dropEndWhile (· != mark) core := by
  have hcore : core.reverse.dropWhile (· != mark) ≠ [] := by
    simpa [List.dropWhile_eq_nil_iff] using h
  have hskip : ∀ c ∈ after.reverse, (c != mark) = true := by
    intro c hc
    simpa using ne_of_mem_of_not_mem (List.mem_reverse.mp hc) hafter
  have hstop : (core.reverse ++ before.reverse).dropWhile (· != mark) =
      core.reverse.dropWhile (· != mark) ++ before.reverse := by
    rw [List.dropWhile_append, if_neg (by simpa using hcore)]
  calc
    _ = ((after.reverse ++ (core.reverse ++ before.reverse)).dropWhile (· != mark)).reverse := by
      rw [dropEndWhile, List.reverse_append, List.reverse_append]
    _ = (core.reverse.dropWhile (· != mark) ++ before.reverse).reverse := by
      rw [List.dropWhile_append_of_pos hskip, hstop]
    _ = _ := by rw [List.reverse_append, List.reverse_reverse, dropEndWhile]

theorem count_margins (hbefore : mark ∉ before) (hafter : mark ∉ after) (core : List Char) :
    (before ++ core ++ after).count mark = core.count mark := by
  rw [List.count_append, List.count_append, List.count_eq_zero.mpr hbefore,
    List.count_eq_zero.mpr hafter, Nat.zero_add, Nat.add_zero]

end Marks

section Trimmed

variable {mark : Char} {line : List Char}

theorem notMem_margin (hmark : isBlank mark = false) : mark ∉ margin line :=
  notMem_of_isBlankLine (isBlankLine_margin line) hmark

theorem notMem_takeEndWhile (hmark : isBlank mark = false) : mark ∉ takeEndWhile isBlank line :=
  notMem_of_isBlankLine (isBlankLine_takeEndWhile line) hmark

theorem count_trim (hmark : isBlank mark = false) (line : List Char) :
    (trim line).count mark = line.count mark := by
  conv_rhs => rw [← margin_append_trim line]
  exact (count_margins (notMem_margin hmark) (notMem_takeEndWhile hmark) (trim line)).symm

theorem takeWhile_ne_eq_margin_append (hmark : isBlank mark = false) (h : mark ∈ trim line) :
    line.takeWhile (· != mark) = margin line ++ (trim line).takeWhile (· != mark) := by
  conv_lhs => rw [← margin_append_trim line]
  exact takeWhile_ne_margins (notMem_margin hmark) h _

theorem dropEndWhile_ne_eq_margin_append (hmark : isBlank mark = false) (h : mark ∈ trim line) :
    dropEndWhile (· != mark) line = margin line ++ dropEndWhile (· != mark) (trim line) := by
  conv_lhs => rw [← margin_append_trim line]
  exact dropEndWhile_ne_margins h (notMem_takeEndWhile hmark) _

end Trimmed

theorem length_le_byteSize (line : List Char) : line.length ≤ byteSize line := by
  induction line with
  | nil => exact Nat.le_refl 0
  | cons c rest ih =>
    have hpos := c.utf8Size_pos
    rw [List.length_cons, byteSize_cons]
    omega

theorem length_dropWhile_ne_pos {mark : Char} {line : List Char} (h : mark ∈ line) :
    0 < (line.dropWhile (· != mark)).length := by
  rw [List.length_pos_iff]
  simpa [List.dropWhile_eq_nil_iff] using h

theorem length_takeWhile_ne_lt {mark : Char} {line : List Char} (h : mark ∈ line) :
    (line.takeWhile (· != mark)).length < line.length := by
  have hrest := length_dropWhile_ne_pos h
  have hline := congrArg List.length (line.takeWhile_append_dropWhile (p := (· != mark)))
  rw [List.length_append] at hline
  omega

/-- The first mark of a line lies on it. -/
theorem byteSize_takeWhile_ne_lt {mark : Char} {line : List Char} (h : mark ∈ line) :
    byteSize (line.takeWhile (· != mark)) < byteSize line := by
  have hrest := length_dropWhile_ne_pos h
  have hsize := length_le_byteSize (line.dropWhile (· != mark))
  have hline := congrArg byteSize (line.takeWhile_append_dropWhile (p := (· != mark)))
  rw [byteSize_append] at hline
  omega

/-- The last mark of a line lies on it. -/
theorem byteSize_dropEndWhile_ne_lt {mark : Char} {line : List Char} (h : mark ∈ line) :
    byteSize (dropEndWhile (· != mark) line).dropLast < byteSize line := by
  have hne := dropEndWhile_ne_ne_nil h
  have hlast := length_le_byteSize [(dropEndWhile (· != mark) line).getLast hne]
  have hthrough := congrArg byteSize (List.dropLast_append_getLast hne)
  have hline := congrArg byteSize (dropEndWhile_append_takeEndWhile (· != mark) line)
  rw [byteSize_append] at hthrough hline
  rw [List.length_singleton] at hlast
  omega

section Literals

variable {before after : List Char}

theorem isQuote_of_isBlank {c : Char} (h : isBlank c) : isQuote c = false := by
  rw [isQuote, Bool.or_eq_false_iff, beq_eq_false_iff_ne, beq_eq_false_iff_ne]
  constructor <;>
  · rintro rfl
    exact absurd h (by decide)

theorem literalsFrom_append_of_not_isQuote (hbefore : ∀ c ∈ before, isQuote c = false)
    (offset : Nat) (line : List Char) :
    literalsFrom offset (before ++ line) = literalsFrom (offset + byteSize before) line := by
  induction before generalizing offset with
  | nil => simp
  | cons c rest ih =>
    obtain ⟨hc, hrest⟩ := List.forall_mem_cons.mp hbefore
    rw [List.cons_append, literalsFrom, hc, Bool.false_and, if_neg Bool.false_ne_true, ih hrest,
      byteSize_cons, Nat.add_assoc]

theorem literalsFrom_blank_append (hbefore : isBlankLine before) (offset : Nat)
    (line : List Char) :
    literalsFrom offset (before ++ line) = literalsFrom (offset + byteSize before) line :=
  literalsFrom_append_of_not_isQuote
    (fun c hc ↦ isQuote_of_isBlank (isBlankLine_iff.mp hbefore c hc)) offset line

theorem literalsFrom_append_blank (hafter : isBlankLine after) (offset : Nat) (line : List Char) :
    literalsFrom offset (line ++ after) = literalsFrom offset line := by
  have hquote {c : Char} (hc : isQuote c) : c ∉ after := by
    intro hmem
    simp [isQuote_of_isBlank (isBlankLine_iff.mp hafter c hmem)] at hc
  fun_induction literalsFrom offset line with
  | case1 offset =>
    have h := literalsFrom_blank_append hafter offset []
    rwa [List.append_nil, literalsFrom] at h
  | case2 offset c rest hc body stop ih =>
    obtain ⟨hisQuote, hclosed⟩ := Bool.and_eq_true_iff.mp hc
    have hmem : c ∈ rest := List.contains_iff_mem.mp hclosed
    have hfound : isQuote c && (rest ++ after).contains c := by
      rw [hisQuote, Bool.true_and, List.contains_iff_mem]
      exact List.mem_append_left after hmem
    have hbody : (rest ++ after).takeWhile (· != c) = body := takeWhile_ne_append_of_mem hmem after
    rw [← List.drop_append_of_le_length (length_takeWhile_ne_lt hmem)] at ih
    rw [List.cons_append, literalsFrom, if_pos hfound, hbody]
    exact congrArg (List.cons _) ih
  | case3 offset c rest hc ih =>
    have hopen : ¬(isQuote c && (rest ++ after).contains c) := by
      intro hfound
      obtain ⟨hisQuote, hclosed⟩ := Bool.and_eq_true_iff.mp hfound
      rw [hisQuote, Bool.true_and, List.contains_iff_mem] at hc
      rcases List.mem_append.mp (List.contains_iff_mem.mp hclosed) with hmem | hmem
      · exact hc hmem
      · exact hquote hisQuote hmem
    rw [List.cons_append, literalsFrom, if_neg hopen, ih]

def ByteSpan.moveRight (bytes : Nat) (span : ByteSpan) : ByteSpan :=
  ⟨bytes + span.start, bytes + span.stop⟩

theorem ByteSpan.contains_moveRight (bytes offset : Nat) (span : ByteSpan) :
    (span.moveRight bytes).contains (bytes + offset) = span.contains offset := by
  simp [ByteSpan.contains, ByteSpan.moveRight]

theorem literalsFrom_add (bytes offset : Nat) (line : List Char) :
    literalsFrom (bytes + offset) line =
      (literalsFrom offset line).map (ByteSpan.moveRight bytes) := by
  fun_induction literalsFrom offset line with
  | case1 offset => rw [literalsFrom, List.map_nil]
  | case2 offset c rest hc body stop ih =>
    rw [literalsFrom, if_pos hc, List.map_cons, ← ih]
    simp only [ByteSpan.moveRight, stop, Nat.add_assoc, body]
  | case3 offset c rest hc ih => rw [literalsFrom, if_neg hc, Nat.add_assoc, ih]

theorem literals_margins (hbefore : isBlankLine before) (hafter : isBlankLine after)
    (core : List Char) :
    literals (before ++ core ++ after) =
      (literals core).map (ByteSpan.moveRight (byteSize before)) := by
  calc
    _ = literalsFrom 0 (before ++ core) := literalsFrom_append_blank hafter 0 (before ++ core)
    _ = literalsFrom (0 + byteSize before) core := literalsFrom_blank_append hbefore 0 core
    _ = literalsFrom (byteSize before + 0) core := by rw [Nat.add_comm]
    _ = _ := literalsFrom_add (byteSize before) 0 core

/-- Margins do not put a byte into a literal, and do not take one out of it. -/
theorem inLiteral_margins (hbefore : isBlankLine before) (hafter : isBlankLine after)
    (core : List Char) (offset : Nat) :
    inLiteral (before ++ core ++ after) (byteSize before + offset) = inLiteral core offset := by
  rw [inLiteral, literals_margins hbefore hafter, List.any_map, inLiteral]
  congr 1
  funext span
  exact span.contains_moveRight (byteSize before) offset

theorem inLiteral_margin (line : List Char) (offset : Nat) :
    inLiteral line (byteSize (margin line) + offset) = inLiteral (trim line) offset := by
  have h := inLiteral_margins (isBlankLine_margin line)
    (isBlankLine_takeEndWhile (trimStart line)) (trim line) offset
  rwa [margin_append_trim] at h

end Literals

end ScriptSense.Text
