import ScriptSense.Proofs.Text.Runs

/-!
# Masked literals

A line is masked by writing spaces over the inside of its literals. The quotes of a literal stay,
and a quote is no word character, so a word is either written over as a whole or left as it is: the
words of the masked line are the words that do not start in a literal.
-/

namespace ScriptSense.Text

/-- The byte lies between the quotes of the literal. -/
def ByteSpan.encloses (span : ByteSpan) (offset : Nat) : Bool :=
  span.start < offset && offset + 1 < span.stop

/-- The rest of a line, whose first character is at byte `offset`, with a space for every byte that
one of the literals encloses. -/
def overwrite (spans : List ByteSpan) (offset : Nat) : List Char → List Char
  | [] => []
  | c :: rest =>
    (if spans.any (·.encloses offset) then List.replicate c.utf8Size ' ' else [c]) ++
      overwrite spans (offset + c.utf8Size) rest

/-- The line with its literals written over. -/
def mask (line : List Char) : List Char :=
  overwrite (literals line) 0 line

section Overwrite

variable {spans : List ByteSpan} {span : ByteSpan} {offset : Nat} {front line : List Char}

theorem overwrite_append_of_outside
    (h : ∀ place, offset ≤ place → place < offset + byteSize front →
      spans.any (·.encloses place) = false) (back : List Char) :
    overwrite spans offset (front ++ back) =
      front ++ overwrite spans (offset + byteSize front) back := by
  induction front generalizing offset with
  | nil => rfl
  | cons c rest ih =>
    have hpos := c.utf8Size_pos
    rw [byteSize_cons] at h
    have hhead := h offset (Nat.le_refl _) (by omega)
    have hrest := @ih (offset + c.utf8Size) fun place hle hlt ↦ h place (by omega) (by omega)
    rw [List.cons_append, overwrite, hhead, hrest, byteSize_cons, Nat.add_assoc]
    rfl

theorem overwrite_append_of_enclosed
    (h : ∀ place, offset ≤ place → place < offset + byteSize front →
      spans.any (·.encloses place)) (back : List Char) :
    overwrite spans offset (front ++ back) =
      List.replicate (byteSize front) ' ' ++ overwrite spans (offset + byteSize front) back := by
  induction front generalizing offset with
  | nil => rfl
  | cons c rest ih =>
    have hpos := c.utf8Size_pos
    rw [byteSize_cons] at h
    have hhead := h offset (Nat.le_refl _) (by omega)
    have hrest := @ih (offset + c.utf8Size) fun place hle hlt ↦ h place (by omega) (by omega)
    rw [List.cons_append, overwrite, hhead, if_pos rfl, hrest, byteSize_cons, Nat.add_assoc,
      ← List.append_assoc, List.replicate_append_replicate]

/-- A literal that ends before a part of the line does not count there. -/
theorem overwrite_cons_of_stop_le (h : span.stop ≤ offset) :
    overwrite (span :: spans) offset line = overwrite spans offset line := by
  induction line generalizing offset with
  | nil => rfl
  | cons c rest ih =>
    have hencloses : span.encloses offset = false := by
      simp only [ByteSpan.encloses, Bool.and_eq_false_iff, decide_eq_false_iff_not]
      omega
    rw [overwrite, List.any_cons, hencloses, Bool.false_or, ih (by omega), overwrite]

end Overwrite

theorem le_start_of_mem_literalsFrom {offset : Nat} {line : List Char} {span : ByteSpan}
    (h : span ∈ literalsFrom offset line) : offset ≤ span.start := by
  fun_induction literalsFrom offset line with
  | case1 offset => simp at h
  | case2 offset c rest hc body stop ih =>
    rcases List.mem_cons.mp h with rfl | h
    · exact Nat.le_refl _
    · have hstart := ih h
      omega
  | case3 offset c rest hc ih => exact Nat.le_trans (Nat.le_add_right _ _) (ih h)

theorem any_encloses_literalsFrom {offset place : Nat} (h : place ≤ offset) (line : List Char) :
    (literalsFrom offset line).any (·.encloses place) = false := by
  rw [List.any_eq_false]
  intro span hspan
  have hstart := le_start_of_mem_literalsFrom hspan
  simp only [ByteSpan.encloses, Bool.and_eq_true, decide_eq_true_eq]
  omega

theorem any_contains_literalsFrom {offset place : Nat} (h : place < offset) (line : List Char) :
    (literalsFrom offset line).any (·.contains place) = false := by
  rw [List.any_eq_false]
  intro span hspan
  have hstart := le_start_of_mem_literalsFrom hspan
  rw [ByteSpan.contains_iff]
  omega

theorem utf8Size_of_isQuote {c : Char} (h : isQuote c) : c.utf8Size = 1 := by
  rcases isQuote_iff.mp h with rfl | rfl <;> rfl

theorem isQuote_of_isWordChar {c : Char} (h : isWordChar c) : isQuote c = false := by
  rw [isQuote, Bool.or_eq_false_iff, beq_eq_false_iff_ne, beq_eq_false_iff_ne]
  constructor <;>
  · rintro rfl
    exact absurd h (by decide)

theorem isWordChar_of_isQuote {c : Char} (h : isQuote c) : isWordChar c = false := by
  rw [← Bool.not_eq_true]
  intro hword
  rw [isQuote_of_isWordChar hword] at h
  contradiction

/-- The rest of a line with its literals written over. -/
def maskFrom (offset : Nat) (line : List Char) : List Char :=
  overwrite (literalsFrom offset line) offset line

section MaskFrom

variable {offset : Nat} {c : Char} {rest front body back : List Char}

/-- Nothing is written over before the first quote. -/
theorem maskFrom_append (h : ∀ c ∈ front, isQuote c = false) (back : List Char) :
    maskFrom offset (front ++ back) = front ++ maskFrom (offset + byteSize front) back := by
  rw [maskFrom, literalsFrom_append_of_not_isQuote h, overwrite_append_of_outside, maskFrom]
  exact fun place _ hlt ↦ any_encloses_literalsFrom (Nat.le_of_lt hlt) back

theorem maskFrom_cons_of_open (h : ¬(isQuote c && rest.contains c)) :
    maskFrom offset (c :: rest) = c :: maskFrom (offset + c.utf8Size) rest := by
  rw [maskFrom, literalsFrom, if_neg h, overwrite, any_encloses_literalsFrom (Nat.le_add_right _ _)]
  rfl

theorem literalsFrom_literal (hquote : isQuote c) (hbody : c ∉ body) (back : List Char) :
    literalsFrom offset (c :: (body ++ c :: back)) =
      ⟨offset, offset + byteSize body + 2⟩ :: literalsFrom (offset + byteSize body + 2) back := by
  have hbody' : ∀ d ∈ body, (d != c) = true := by
    intro d hd
    simpa using ne_of_mem_of_not_mem hd hbody
  have htake : (body ++ c :: back).takeWhile (· != c) = body := by
    rw [List.takeWhile_append_of_pos hbody']
    simp
  have hdrop : (body ++ c :: back).drop (body.length + 1) = back := by
    rw [← List.drop_drop, List.drop_left]
    rfl
  rw [literalsFrom, if_pos (by simp [hquote])]
  simp only [htake, hdrop]

theorem maskFrom_literal (hquote : isQuote c) (hbody : c ∉ body) (back : List Char) :
    maskFrom offset (c :: (body ++ c :: back)) =
      c :: (List.replicate (byteSize body) ' ' ++
        c :: maskFrom (offset + byteSize body + 2) back) := by
  have hsize := utf8Size_of_isQuote hquote
  have hplaces (place : Nat) (hplace : place ≤ offset + byteSize body + 2) :
      ((⟨offset, offset + byteSize body + 2⟩ : ByteSpan) ::
          literalsFrom (offset + byteSize body + 2) back).any (·.encloses place) =
        (decide (offset < place) && decide (place + 1 < offset + byteSize body + 2)) := by
    rw [List.any_cons, any_encloses_literalsFrom hplace, Bool.or_false]
    rfl
  have hopening := hplaces offset (by omega)
  have hclosing := hplaces (offset + 1 + byteSize body) (by omega)
  have hend : ¬offset + 1 + byteSize body + 1 < offset + byteSize body + 2 := by omega
  rw [decide_eq_false (Nat.lt_irrefl _), Bool.false_and] at hopening
  rw [decide_eq_false hend, Bool.and_false] at hclosing
  have hstop : offset + 1 + byteSize body + 1 = offset + byteSize body + 2 := by omega
  rw [maskFrom, literalsFrom_literal hquote hbody, overwrite, hopening, hsize,
    overwrite_append_of_enclosed, overwrite, hclosing, hsize, hstop,
    overwrite_cons_of_stop_le (Nat.le_refl _)]
  · rfl
  · intro place hle hlt
    rw [hplaces place (by omega), Bool.and_eq_true, decide_eq_true_eq, decide_eq_true_eq]
    omega

end MaskFrom

/-! ## The words of a masked line -/

theorem head?_maskFrom (offset : Nat) (line : List Char) :
    (maskFrom offset line).head? = line.head? := by
  cases line with
  | nil => rfl
  | cons c rest =>
    rw [maskFrom, overwrite, any_encloses_literalsFrom (Nat.le_refl _)]
    rfl

theorem wordsFrom_run {run : List Char} (hne : run ≠ []) (hrun : ∀ c ∈ run, isWordChar c)
    {after : List Char} (hafter : ∀ c ∈ after.head?, isWordChar c = false) (offset : Nat) :
    wordsFrom offset (run ++ after) = ⟨offset, run⟩ :: wordsFrom (offset + byteSize run) after := by
  obtain ⟨c, rest, rfl⟩ := List.exists_cons_of_ne_nil hne
  obtain ⟨hc, hrest⟩ := List.forall_mem_cons.mp hrun
  rw [List.cons_append, wordsFrom, if_pos hc, takeWhile_append_of_head? hrest hafter,
    dropWhile_append_of_head? hrest hafter]

/-- No word goes across a character that is no word character. -/
theorem wordsFrom_append_cons {c : Char} (hc : isWordChar c = false) (offset : Nat)
    (front back : List Char) :
    wordsFrom offset (front ++ c :: back) =
      wordsFrom offset front ++ wordsFrom (offset + byteSize front + c.utf8Size) back := by
  have hstop : ∀ d ∈ (c :: back).head?, isWordChar d = false := by simp [hc]
  fun_induction wordsFrom offset front with
  | case1 offset =>
    rw [List.nil_append, List.nil_append, wordsFrom, hc, if_neg Bool.false_ne_true, byteSize_nil,
      Nat.add_zero]
  | case2 offset d rest hd run ih =>
    have hsize : byteSize run + byteSize (rest.dropWhile isWordChar) = byteSize (d :: rest) := by
      rw [← byteSize_append, List.cons_append, List.takeWhile_append_dropWhile]
    rw [List.cons_append, wordsFrom, if_pos hd, takeWhile_isWordChar_append hstop,
      dropWhile_isWordChar_append hstop, ← hsize, ← Nat.add_assoc offset]
    exact congrArg (List.cons _) ih
  | case3 offset d rest hd ih =>
    rw [List.cons_append, wordsFrom, if_neg hd, ih, byteSize_cons, Nat.add_assoc offset]

/-- The words of the rest of a line that do not start in one of its literals. -/
def outsideWords (offset : Nat) (line : List Char) : List Word :=
  (wordsFrom offset line).filter fun word ↦
    !(literalsFrom offset line).any (·.contains word.offset)

section Steps

variable {c : Char} {body run after rest : List Char} {offset : Nat}

theorem wordsFrom_literal (hquote : isQuote c) (offset : Nat) (body back : List Char) :
    wordsFrom offset (c :: (body ++ c :: back)) =
      wordsFrom (offset + 1) body ++ wordsFrom (offset + byteSize body + 2) back := by
  have hword := isWordChar_of_isQuote hquote
  have hstop : offset + 1 + byteSize body + 1 = offset + byteSize body + 2 := by omega
  rw [wordsFrom, hword, if_neg Bool.false_ne_true, wordsFrom_append_cons hword,
    utf8Size_of_isQuote hquote, hstop]

theorem wordsFrom_spaces (offset count : Nat) :
    wordsFrom offset (List.replicate count ' ') = [] := by
  have hspaces : ∀ d ∈ List.replicate count ' ', isWordChar d = false := by
    intro d hd
    rw [List.eq_of_mem_replicate hd]
    rfl
  have h := wordsFrom_append_of_not_isWordChar hspaces offset []
  rwa [List.append_nil, wordsFrom] at h

theorem byteSize_spaces (count : Nat) : byteSize (List.replicate count ' ') = count := by
  induction count with
  | zero => rfl
  | succ count ih =>
    rw [List.replicate_succ, byteSize_cons, ih, Nat.add_comm]
    rfl

/-- Written over, a literal has no words. -/
theorem wordsFrom_maskFrom_literal (hquote : isQuote c) (hbody : c ∉ body) (back : List Char) :
    wordsFrom offset (maskFrom offset (c :: (body ++ c :: back))) =
      wordsFrom (offset + byteSize body + 2) (maskFrom (offset + byteSize body + 2) back) := by
  rw [maskFrom_literal hquote hbody, wordsFrom_literal hquote, wordsFrom_spaces, byteSize_spaces,
    List.nil_append]

/-- Every word of a literal starts in it. -/
theorem outsideWords_literal (hquote : isQuote c) (hbody : c ∉ body) (back : List Char) :
    outsideWords offset (c :: (body ++ c :: back)) =
      outsideWords (offset + byteSize body + 2) back := by
  rw [outsideWords, wordsFrom_literal hquote, literalsFrom_literal hquote hbody,
    List.filter_append]
  have hinside : (wordsFrom (offset + 1) body).filter (fun word ↦
      !((⟨offset, offset + byteSize body + 2⟩ : ByteSpan) ::
        literalsFrom (offset + byteSize body + 2) back).any (·.contains word.offset)) = [] := by
    rw [List.filter_eq_nil_iff]
    intro word hword
    obtain ⟨before, after, -, -, hoffset⟩ := mem_wordsFrom_iff.mp hword
    have hend := offset_add_length_le_of_mem_wordsFrom hword
    have hcontains : (⟨offset, offset + byteSize body + 2⟩ : ByteSpan).contains word.offset := by
      simp only [ByteSpan.contains_iff]
      omega
    rw [List.any_cons, hcontains]
    simp
  rw [hinside, List.nil_append, outsideWords]
  apply List.filter_congr
  intro word hword
  obtain ⟨before, after, -, -, hoffset⟩ := mem_wordsFrom_iff.mp hword
  have hcontains :
      (⟨offset, offset + byteSize body + 2⟩ : ByteSpan).contains word.offset = false := by
    simp only [ByteSpan.contains, Bool.and_eq_false_iff, decide_eq_false_iff_not]
    omega
  rw [List.any_cons, hcontains, Bool.false_or]

theorem isQuote_of_mem_run (h : IsRun [] run after) : ∀ d ∈ run, isQuote d = false :=
  fun d hd ↦ isQuote_of_isWordChar (h.word d hd)

theorem wordsFrom_maskFrom_run (h : IsRun [] run after) :
    wordsFrom offset (maskFrom offset (run ++ after)) =
      ⟨offset, run⟩ ::
        wordsFrom (offset + byteSize run) (maskFrom (offset + byteSize run) after) := by
  have hafter : ∀ d ∈ (maskFrom (offset + byteSize run) after).head?, isWordChar d = false := by
    rw [head?_maskFrom]
    exact h.after
  rw [maskFrom_append (isQuote_of_mem_run h), wordsFrom_run h.ne_nil h.word hafter]

/-- There is no quote in a word, so no literal starts before the word ends. -/
theorem outsideWords_run (h : IsRun [] run after) :
    outsideWords offset (run ++ after) =
      ⟨offset, run⟩ :: outsideWords (offset + byteSize run) after := by
  have hsize : 0 < byteSize run :=
    Nat.pos_of_ne_zero fun hzero ↦ h.ne_nil (byteSize_eq_zero.mp hzero)
  rw [outsideWords, wordsFrom_run h.ne_nil h.word h.after,
    literalsFrom_append_of_not_isQuote (isQuote_of_mem_run h), List.filter_cons_of_pos,
    outsideWords]
  rw [any_contains_literalsFrom (Nat.lt_add_of_pos_right hsize)]
  rfl

theorem wordsFrom_maskFrom_cons (hliteral : ¬(isQuote c && rest.contains c))
    (hword : ¬isWordChar c) :
    wordsFrom offset (maskFrom offset (c :: rest)) =
      wordsFrom (offset + c.utf8Size) (maskFrom (offset + c.utf8Size) rest) := by
  rw [maskFrom_cons_of_open hliteral, wordsFrom, if_neg hword]

theorem outsideWords_cons (hliteral : ¬(isQuote c && rest.contains c)) (hword : ¬isWordChar c) :
    outsideWords offset (c :: rest) = outsideWords (offset + c.utf8Size) rest := by
  rw [outsideWords, wordsFrom, if_neg hword, literalsFrom, if_neg hliteral, outsideWords]

end Steps

/-- The words of a masked line are those that do not start in a literal. -/
theorem wordsFrom_maskFrom (offset : Nat) (line : List Char) :
    wordsFrom offset (maskFrom offset line) = outsideWords offset line := by
  induction hlength : line.length using Nat.strongRecOn generalizing offset line with
  | ind length ih =>
    cases line with
    | nil => simp [maskFrom, overwrite, wordsFrom, outsideWords]
    | cons c rest =>
      by_cases hliteral : isQuote c && rest.contains c
      · obtain ⟨hquote, hclosed⟩ := Bool.and_eq_true_iff.mp hliteral
        obtain ⟨body, back, rfl, hbody⟩ :=
          List.eq_append_cons_of_mem (List.contains_iff_mem.mp hclosed)
        have hshorter : back.length < length := by
          rw [← hlength, List.length_cons, List.length_append, List.length_cons]
          omega
        rw [wordsFrom_maskFrom_literal hquote hbody, ih _ hshorter _ _ rfl,
          outsideWords_literal hquote hbody]
      · by_cases hword : isWordChar c
        · have hrun := isRun_takeWhile hword rest
          have hline :
              c :: rest = (c :: rest.takeWhile isWordChar) ++ rest.dropWhile isWordChar := by
            rw [List.cons_append, List.takeWhile_append_dropWhile]
          have hshorter : (rest.dropWhile isWordChar).length < length := by
            rw [← hlength]
            exact Nat.lt_succ_of_le (List.length_dropWhile_le _ _)
          rw [hline, wordsFrom_maskFrom_run hrun, ih _ hshorter _ _ rfl, outsideWords_run hrun]
        · have hshorter : rest.length < length := hlength ▸ Nat.lt_succ_self _
          rw [wordsFrom_maskFrom_cons hliteral hword, ih _ hshorter _ _ rfl,
            outsideWords_cons hliteral hword]

/-- Masking the literals before the identifiers are read is the same as leaving out the identifiers
that start in a literal. -/
theorem identifiers_mask (line : List Char) :
    identifiers (mask line) = (identifiers line).filter fun word ↦ !inLiteral line word.offset := by
  calc identifiers (mask line)
    _ = ((words line).filter fun word ↦ !inLiteral line word.offset).filter Word.isIdentifier :=
      congrArg (List.filter Word.isIdentifier) (wordsFrom_maskFrom 0 line)
    _ = _ := by
      rw [identifiers, List.filter_filter, List.filter_filter]
      apply List.filter_congr
      exact fun word _ ↦ Bool.and_comm _ _

end ScriptSense.Text
