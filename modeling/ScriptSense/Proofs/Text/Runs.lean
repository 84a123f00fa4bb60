import ScriptSense.Proofs.Text.Cuts

/-!
# Words as runs

A word is a run of word characters with no word character next to it on either side. Reading a line
from left to right finds all its runs, and looking out from a column finds the run that touches the
column.
-/

namespace ScriptSense.Text

/-- A word between the text before it and the text after it: word characters that no further one
extends. -/
structure IsRun (before run after : List Char) : Prop where
  ne_nil : run ≠ []
  word : ∀ c ∈ run, isWordChar c
  before : ∀ c ∈ before.getLast?, isWordChar c = false
  after : ∀ c ∈ after.head?, isWordChar c = false

theorem isRun_iff {before run after : List Char} : IsRun before run after ↔ run ≠ [] ∧
    run.all isWordChar ∧ before.getLast?.all (!isWordChar ·) ∧ after.head?.all (!isWordChar ·) := by
  simp only [List.all_eq_true, Option.all_eq_true, Bool.not_eq_true']
  constructor
  · intro h
    exact ⟨h.ne_nil, h.word, h.before, h.after⟩
  · rintro ⟨hne, hword, hbefore, hafter⟩
    exact ⟨hne, hword, hbefore, hafter⟩

instance {before run after : List Char} : Decidable (IsRun before run after) :=
  decidable_of_iff' _ isRun_iff

namespace IsRun

variable {front before run after : List Char}

theorem append_left (h : IsRun before run after)
    (hfront : before = [] → ∀ c ∈ front.getLast?, isWordChar c = false) :
    IsRun (front ++ before) run after where
  ne_nil := h.ne_nil
  word := h.word
  before c hc := by
    rw [List.getLast?_append] at hc
    cases hlast : before.getLast? with
    | none =>
      rw [hlast, Option.none_or] at hc
      exact hfront (List.getLast?_eq_none_iff.mp hlast) c hc
    | some d =>
      rw [hlast, Option.some_or] at hc
      exact h.before c (hlast ▸ hc)
  after := h.after

theorem of_append_left (h : IsRun (front ++ before) run after) : IsRun before run after where
  ne_nil := h.ne_nil
  word := h.word
  before c hc := by
    apply h.before
    rw [List.getLast?_append, Option.mem_def.mp hc]
    rfl
  after := h.after

/-- A word does not start right after another one. -/
theorem ne_nil_of_next {first rest : List Char} (hfirst : IsRun front first rest)
    (h : IsRun before run after) (hrest : rest = before ++ (run ++ after)) : before ≠ [] := by
  rintro rfl
  obtain ⟨c, others, rfl⟩ := List.exists_cons_of_ne_nil h.ne_nil
  have hnot := hfirst.after c (hrest ▸ rfl)
  rw [h.word c List.mem_cons_self] at hnot
  contradiction

/-- Two words that start together are the same. -/
theorem eq_of_append_eq {other rest : List Char} (h : IsRun before run after)
    (hother : IsRun front other rest) (heq : run ++ after = other ++ rest) : run = other :=
  (eq_of_append_eq_of_head? heq h.word hother.word h.after hother.after).1

/-- A word has as many bytes as characters. -/
theorem ofSlice_eq_onLine (h : IsRun before run after) (number : Nat) :
    Range.ofSlice number (before ++ (run ++ after)) (byteSize before) run.length =
      Range.onLine number (width before) (width (before ++ run)) := by
  rw [← byteSize_of_all_isWordChar h.word, Text.ofSlice_eq_onLine]

end IsRun

theorem isRun_takeWhile {c : Char} (hc : isWordChar c) (rest : List Char) :
    IsRun [] (c :: rest.takeWhile isWordChar) (rest.dropWhile isWordChar) where
  ne_nil := List.cons_ne_nil _ _
  word d hd := by
    rcases List.mem_cons.mp hd with rfl | hd
    · exact hc
    · exact List.mem_takeWhile_imp hd
  before := by simp
  after := head?_dropWhile isWordChar rest

/-- The words of a text are its runs of word characters. -/
theorem mem_wordsFrom_iff {offset : Nat} {line : List Char} {word : Word} :
    word ∈ wordsFrom offset line ↔ ∃ before after, line = before ++ (word.chars ++ after) ∧
      IsRun before word.chars after ∧ word.offset = offset + byteSize before := by
  fun_induction wordsFrom offset line with
  | case1 offset =>
    constructor
    · intro h
      simp at h
    · rintro ⟨before, after, hline, hrun, -⟩
      simp [hrun.ne_nil] at hline
  | case2 offset c rest hc run ih =>
    have hfirst := isRun_takeWhile hc rest
    have hline : run ++ rest.dropWhile isWordChar = c :: rest := by
      rw [List.cons_append, List.takeWhile_append_dropWhile]
    rw [List.mem_cons, ih, ← hline]
    constructor
    · rintro (rfl | ⟨before, after, hrest, hrun, hoffset⟩)
      · exact ⟨[], rest.dropWhile isWordChar, rfl, hfirst, rfl⟩
      · refine ⟨run ++ before, after, by rw [hrest, List.append_assoc], ?_, ?_⟩
        · exact hrun.append_left fun hnil ↦ absurd hnil (hfirst.ne_nil_of_next hrun hrest)
        · rw [hoffset, byteSize_append, Nat.add_assoc]
    · rintro ⟨before, after, heq, hrun, hoffset⟩
      rcases List.append_eq_append_iff.mp heq with ⟨middle, rfl, hrest⟩ | ⟨middle, hmiddle, -⟩
      · refine .inr ⟨middle, after, hrest, hrun.of_append_left, ?_⟩
        rw [hoffset, byteSize_append, Nat.add_assoc]
      · -- The text before a run that starts within the first one would end in a word character.
        have hnil : before = [] := by
          rw [← List.getLast?_eq_none_iff, Option.eq_none_iff_forall_not_mem]
          intro d hd
          have hmem : d ∈ run := hmiddle ▸ List.mem_append_left _ (List.mem_of_getLast? hd)
          have hword := hfirst.word d hmem
          rw [hrun.before d hd] at hword
          contradiction
        subst hnil
        have hchars : word.chars = run := hrun.eq_of_append_eq hfirst heq.symm
        left
        cases word
        simp_all
  | case3 offset c rest hc ih =>
    have hc : isWordChar c = false := by simpa using hc
    rw [ih]
    constructor
    · rintro ⟨before, after, rfl, hrun, hoffset⟩
      have hlater : IsRun ([c] ++ before) word.chars after := hrun.append_left (by simp [hc])
      refine ⟨c :: before, after, rfl, hlater, ?_⟩
      rw [hoffset, byteSize_cons, Nat.add_assoc]
    · rintro ⟨before, after, heq, hrun, hoffset⟩
      cases before with
      | nil =>
        obtain ⟨d, others, hd⟩ := List.exists_cons_of_ne_nil hrun.ne_nil
        rw [hd] at heq
        obtain ⟨rfl, -⟩ := List.cons.inj heq
        have hword := hrun.word c (hd ▸ List.mem_cons_self)
        rw [hc] at hword
        contradiction
      | cons d before =>
        obtain ⟨rfl, hrest⟩ := List.cons.inj heq
        have hlater : IsRun ([c] ++ before) word.chars after := hrun
        refine ⟨before, after, hrest, hlater.of_append_left, ?_⟩
        rw [hoffset, byteSize_cons, Nat.add_assoc]

theorem mem_words_iff {line : List Char} {word : Word} :
    word ∈ words line ↔ ∃ before after, line = before ++ (word.chars ++ after) ∧
      IsRun before word.chars after ∧ word.offset = byteSize before := by
  rw [words, mem_wordsFrom_iff]
  simp only [Nat.zero_add]

theorem mem_identifiers_iff {line : List Char} {word : Word} :
    word ∈ identifiers line ↔ ∃ before after, line = before ++ (word.chars ++ after) ∧
      IsRun before word.chars after ∧ word.offset = byteSize before ∧
      ∀ c ∈ word.chars.head?, c.isDigit = false := by
  have hidentifier : word.isIdentifier ↔ ∀ c ∈ word.chars.head?, c.isDigit = false := by
    rw [Word.isIdentifier]
    cases word.chars.head? <;> simp
  rw [identifiers, List.mem_filter, mem_words_iff, hidentifier]
  grind

theorem pairwise_wordsFrom (offset : Nat) (line : List Char) :
    (wordsFrom offset line).Pairwise fun a b ↦ a.offset + byteSize a.chars < b.offset := by
  fun_induction wordsFrom offset line with
  | case1 offset => exact .nil
  | case2 offset c rest hc run ih =>
    refine List.pairwise_cons.mpr ⟨?_, ih⟩
    intro word hword
    obtain ⟨before, after, hrest, hrun, hoffset⟩ := mem_wordsFrom_iff.mp hword
    have hgap := (isRun_takeWhile hc rest).ne_nil_of_next hrun hrest
    have hpos : byteSize before ≠ 0 := fun hzero ↦ hgap (byteSize_eq_zero.mp hzero)
    simp only
    omega
  | case3 offset c rest hc ih => exact ih

/-- What touches a cut on both sides is a word, unless it is nothing. -/
theorem isRun_touching {front back : List Char}
    (h : takeEndWhile isWordChar front ++ back.takeWhile isWordChar ≠ []) :
    IsRun (dropEndWhile isWordChar front)
      (takeEndWhile isWordChar front ++ back.takeWhile isWordChar)
      (back.dropWhile isWordChar) where
  ne_nil := h
  word c hc := by
    rcases List.mem_append.mp hc with hc | hc
    · exact List.mem_takeWhile_imp (List.mem_reverse.mp hc)
    · exact List.mem_takeWhile_imp hc
  before := getLast?_dropEndWhile isWordChar front
  after := head?_dropWhile isWordChar back

/-- The word at a column is the one that touches the byte of the column, at either end or within. -/
theorem wordAt_eq_some_iff {line : List Char} {column : Nat} {word : Word} :
    wordAt line column = some word ↔ word ∈ words line ∧ word.offset ≤ offsetAt line column ∧
      offsetAt line column ≤ word.offset + byteSize word.chars := by
  rw [mem_words_iff, offsetAt, wordAt]
  have hline := splitColumn_append column line
  generalize splitColumn column line = cut at hline ⊢
  obtain ⟨front, back⟩ := cut
  simp only at hline ⊢
  constructor
  · intro h
    split at h
    · contradiction
    · rename_i c rest hrun
      rw [← Option.some.inj h]
      have htouching := isRun_touching (hrun ▸ List.cons_ne_nil c rest)
      have hfront := congrArg byteSize (dropEndWhile_append_takeEndWhile isWordChar front)
      have hsize := congrArg byteSize hrun
      rw [byteSize_append] at hfront hsize
      rw [hrun] at htouching
      refine ⟨⟨_, _, ?_, htouching, rfl⟩, ?_, ?_⟩
      · simp only
        rw [← hrun, ← hline, List.append_assoc, List.takeWhile_append_dropWhile,
          ← List.append_assoc, dropEndWhile_append_takeEndWhile]
      · simp only
        omega
      · simp only
        omega
  · rintro ⟨⟨before, after, heq, hrun, hoffset⟩, hle, hge⟩
    obtain ⟨left, rfl, hback⟩ := exists_middle (heq.symm.trans hline.symm) (by rwa [← hoffset])
    rw [byteSize_append] at hge
    obtain ⟨right, hchars, rfl⟩ := exists_middle hback.symm (by omega)
    have hword (c : Char) (hc : c ∈ left ++ right) : isWordChar c := hrun.word c (hchars ▸ hc)
    have hleft (c : Char) (hc : c ∈ left) : isWordChar c := hword c (List.mem_append_left _ hc)
    have hright (c : Char) (hc : c ∈ right) : isWordChar c := hword c (List.mem_append_right _ hc)
    rw [takeEndWhile_append_of_getLast? hleft hrun.before,
      dropEndWhile_append_of_getLast? hleft hrun.before,
      takeWhile_append_of_head? hright hrun.after, ← hchars]
    split
    · rename_i hnil
      exact absurd hnil hrun.ne_nil
    · rename_i c rest hcons
      cases word
      simp_all

theorem mem_wordMatches_iff {line : List Char} {word : String} {offset : Nat} :
    offset ∈ wordMatches line word ↔ ∃ before after, line = before ++ (word.toList ++ after) ∧
      IsRun before word.toList after ∧ offset = byteSize before := by
  rw [wordMatches, List.mem_filterMap]
  constructor
  · rintro ⟨found, hmem, hfound⟩
    split at hfound
    · rename_i htext
      obtain ⟨before, after, hline, hrun, hoffset⟩ := mem_words_iff.mp hmem
      have hchars : word.toList = found.chars := by rw [← htext, Word.text, String.toList_ofList]
      rw [hchars]
      exact ⟨before, after, hline, hrun, by rw [← Option.some.inj hfound, hoffset]⟩
    · contradiction
  · rintro ⟨before, after, hline, hrun, hoffset⟩
    refine ⟨⟨byteSize before, word.toList⟩, mem_words_iff.mpr ⟨before, after, hline, hrun, rfl⟩, ?_⟩
    rw [Word.text, String.ofList_toList, if_pos rfl, hoffset]

theorem pairwise_wordMatches (line : List Char) (word : String) :
    (wordMatches line word).Pairwise (· < ·) := by
  rw [wordMatches, List.pairwise_filterMap]
  apply (pairwise_wordsFrom 0 line).imp
  intro a b hlt offset hoffset other hother
  split at hoffset <;> split at hother <;> simp_all
  omega

end ScriptSense.Text
