import ScriptSense.Proofs.Text.Bytes
import ScriptSense.Proofs.Text.Intervals

/-!
# Words are runs of word bytes

The words of a line take up its word bytes and no other bytes, and between two of them there is a
byte of neither. A search for a word in the bytes finds it where it stands alone, and the two
searches from a column find the word that touches the column.
-/

namespace ScriptSense.Text

/-- The stretch from byte `start` to byte `stop`, which are cuts of the line, with its text. -/
def IsSlice (line : List Char) (start stop : Nat) (covered : List Char) : Prop :=
  ∃ before after, line = before ++ (covered ++ after) ∧ start = byteSize before ∧
    stop = byteSize (before ++ covered)

/-- The bytes stand at `offset` with no word byte right before or right after them. -/
def StandsAlone (bytes run : List UInt8) (offset : Nat) : Prop :=
  ∃ front back, bytes = front ++ (run ++ back) ∧ offset = front.length ∧
    (∀ b ∈ front.getLast?, isWordByte b = false) ∧ ∀ b ∈ back.head?, isWordByte b = false

/-- The offset is at an end of the word or within it. -/
def Word.Touches (word : Word) (offset : Nat) : Prop :=
  word.offset ≤ offset ∧ offset ≤ word.offset + byteSize word.chars

/-- The offset right after the last byte before `offset` that is no word byte. -/
def wordStart (bytes : List UInt8) (offset : Nat) : Nat :=
  (dropEndWhile isWordByte (bytes.take offset)).length

/-- The offset of the first byte from `offset` on that is no word byte. -/
def wordStop (bytes : List UInt8) (offset : Nat) : Nat :=
  offset + ((bytes.drop offset).takeWhile isWordByte).length

variable {line run : List Char} {start stop offset : Nat} {word : Word}

theorem IsSlice.isCut_start (h : IsSlice line start stop run) : IsCut line start := by
  obtain ⟨before, after, rfl, rfl, -⟩ := h
  exact ⟨before, run ++ after, rfl, rfl⟩

theorem isSlice_of_mem_words (h : word ∈ words line) :
    IsSlice line word.offset (word.offset + byteSize word.chars) word.chars := by
  obtain ⟨before, after, hline, -, hoffset⟩ := mem_words_iff.mp h
  exact ⟨before, after, hline, hoffset, by rw [hoffset, byteSize_append]⟩

theorem utf8Size_of_isWordChar {c : Char} (h : isWordChar c) : c.utf8Size = 1 :=
  @byteSize_of_all_isWordChar [c] (by simpa using h)

/-- A word byte is a character of its own, so a run of them stands in the bytes where its characters
stand in the line. -/
theorem standsAlone_iff (hne : run ≠ []) (hword : ∀ c ∈ run, isWordChar c) :
    StandsAlone (encodeUtf8 line) (encodeUtf8 run) offset ↔
      ∃ before after, line = before ++ (run ++ after) ∧ IsRun before run after ∧
        offset = byteSize before := by
  constructor
  · rintro ⟨front, back, hbytes, rfl, hfront, hback⟩
    obtain ⟨first, others, hrun⟩ : ∃ first others, encodeUtf8 run = first :: others := by
      apply List.exists_cons_of_ne_nil
      intro hnil
      exact hne (encodeUtf8_injective hnil)
    have hfirst : isWordByte first :=
      isWordByte_of_mem_encodeUtf8 hword first (hrun ▸ List.mem_cons_self)
    have hat : (encodeUtf8 line)[front.length]? = some first := by
      rw [hbytes, hrun, List.getElem?_append_right (Nat.le_refl _), Nat.sub_self]
      rfl
    obtain ⟨before, c, after, rfl, hmem, hle, hlt⟩ := exists_char_of_getElem? hat
    have hc : isWordChar c := isWordByte_of_mem hmem ▸ hfirst
    have hlength : front.length = (encodeUtf8 before).length := by
      rw [utf8Size_of_isWordChar hc] at hlt
      rw [length_encodeUtf8]
      omega
    rw [encodeUtf8_append] at hbytes
    obtain ⟨hbefore, hrest⟩ := List.append_inj hbytes hlength.symm
    have hcut : (c :: after).takeWhile isWordChar ++ (c :: after).dropWhile isWordChar =
        c :: after := List.takeWhile_append_dropWhile
    rw [← hcut, encodeUtf8_append] at hrest
    have hstop := head?_dropWhile isWordChar (c :: after)
    obtain ⟨hsame, -⟩ := eq_of_append_eq_of_head? hrest
      (isWordByte_of_mem_encodeUtf8 fun d hd ↦ List.mem_takeWhile_imp hd)
      (isWordByte_of_mem_encodeUtf8 hword) (head?_encodeUtf8_iff.mpr hstop) hback
    rw [encodeUtf8_injective hsame] at hcut
    refine ⟨before, (c :: after).dropWhile isWordChar, by rw [hcut], ⟨hne, hword, ?_, hstop⟩, ?_⟩
    · rw [← getLast?_encodeUtf8_iff, hbefore]
      exact hfront
    · rw [hlength, length_encodeUtf8]
  · rintro ⟨before, after, rfl, hrun, rfl⟩
    refine ⟨encodeUtf8 before, encodeUtf8 after, ?_, (length_encodeUtf8 before).symm,
      getLast?_encodeUtf8_iff.mpr hrun.before, head?_encodeUtf8_iff.mpr hrun.after⟩
    rw [encodeUtf8_append, encodeUtf8_append]

theorem mem_wordMatches_iff_standsAlone {name : String} (hne : name ≠ "")
    (hname : ∀ b ∈ encodeUtf8 name.toList, isWordByte b) :
    offset ∈ wordMatches line name ↔
      StandsAlone (encodeUtf8 line) (encodeUtf8 name.toList) offset := by
  have hchars : name.toList ≠ [] := by simpa using hne
  rw [mem_wordMatches_iff, standsAlone_iff hchars (isWordChar_of_isWordByte hname)]

theorem wordMatches_eq_nil {name : String}
    (h : name = "" ∨ ∃ b ∈ encodeUtf8 name.toList, isWordByte b = false) :
    wordMatches line name = [] := by
  rw [List.eq_nil_iff_forall_not_mem]
  intro offset hoffset
  obtain ⟨before, after, -, hrun, -⟩ := mem_wordMatches_iff.mp hoffset
  rcases h with rfl | ⟨b, hb, hnot⟩
  · exact hrun.ne_nil rfl
  · rw [isWordByte_of_mem_encodeUtf8 hrun.word b hb] at hnot
    contradiction

/-- The words take up the word bytes and no other bytes. -/
theorem isWordByte_iff_covered {place : Nat} {b : UInt8}
    (h : (encodeUtf8 line)[place]? = some b) :
    isWordByte b ↔ ∃ word ∈ words line, word.offset ≤ place ∧
      place < word.offset + byteSize word.chars := by
  constructor
  · intro hb
    obtain ⟨before, c, after, rfl, hmem, hle, hlt⟩ := exists_char_of_getElem? h
    have hc : isWordChar c := isWordByte_of_mem hmem ▸ hb
    have htake : (c :: after).takeWhile isWordChar = c :: after.takeWhile isWordChar :=
      List.takeWhile_cons_of_pos hc
    have hrun := @isRun_touching before (c :: after) (by simp [htake])
    have hbefore := congrArg byteSize (dropEndWhile_append_takeEndWhile isWordChar before)
    rw [byteSize_append] at hbefore
    refine ⟨⟨_, _⟩, mem_words_iff.mpr ⟨_, _, ?_, hrun, rfl⟩, ?_, ?_⟩
    · simp only
      rw [List.append_assoc, List.takeWhile_append_dropWhile, ← List.append_assoc,
        dropEndWhile_append_takeEndWhile]
    · simp only
      omega
    · simp only [byteSize_append, htake, byteSize_cons]
      omega
  · rintro ⟨word, hword, hstart, hstop⟩
    obtain ⟨before, after, rfl, hrun, hoffset⟩ := mem_words_iff.mp hword
    rw [hoffset] at hstart hstop
    exact isWordByte_of_mem_encodeUtf8 hrun.word b (mem_encodeUtf8_of_getElem? h hstart hstop)

/-- A word is followed by a byte that is no word byte, unless it ends the line. -/
theorem exists_byte_after (h : word ∈ words line)
    (hlt : word.offset + byteSize word.chars < byteSize line) :
    ∃ b, (encodeUtf8 line)[word.offset + byteSize word.chars]? = some b ∧
      isWordByte b = false := by
  obtain ⟨before, after, rfl, hrun, hoffset⟩ := mem_words_iff.mp h
  have hsize : word.offset + byteSize word.chars = byteSize (before ++ word.chars) := by
    rw [hoffset, byteSize_append]
  have hhead := drop_encodeUtf8_append (before ++ word.chars) after
  rw [List.append_assoc, ← hsize] at hhead
  rw [← List.head?_drop, hhead]
  cases hafter : (encodeUtf8 after).head? with
  | none =>
    have hnil : after = [] := encodeUtf8_injective (List.head?_eq_none_iff.mp hafter)
    rw [hnil, List.append_nil, ← hsize] at hlt
    exact absurd hlt (Nat.lt_irrefl _)
  | some b => exact ⟨b, rfl, head?_encodeUtf8_iff.mpr hrun.after b hafter⟩

theorem pairwise_words (line : List Char) :
    (words line).Pairwise fun a b ↦ a.offset + byteSize a.chars < b.offset :=
  pairwise_wordsFrom 0 line

/-- Between two words there is a byte that is no word byte. -/
theorem exists_byte_between {a b : Word} (ha : a ∈ words line) (hb : b ∈ words line)
    (h : a.offset + byteSize a.chars < b.offset) :
    ∃ place byte, a.offset + byteSize a.chars ≤ place ∧ place < b.offset ∧
      (encodeUtf8 line)[place]? = some byte ∧ isWordByte byte = false := by
  have hline := (isSlice_of_mem_words hb).isCut_start.le_byteSize
  obtain ⟨byte, hbyte, hnot⟩ := exists_byte_after ha (by omega)
  exact ⟨_, byte, Nat.le_refl _, h, hbyte, hnot⟩

/-- Words stay apart even if the place right after a word is counted as its own. -/
theorem areApart_words (line : List Char) :
    AreApart Word.offset (fun word ↦ word.offset + byteSize word.chars + 1) (words line) where
  nonempty word _ := Nat.lt_succ_of_le (Nat.le_add_right word.offset _)
  ordered := pairwise_words line

theorem eq_of_touches {a b : Word} (ha : a ∈ words line) (hb : b ∈ words line)
    (hatouches : a.Touches offset) (hbtouches : b.Touches offset) : a = b :=
  (areApart_words line).eq_of_common ha hb ⟨hatouches.1, Nat.lt_succ_of_le hatouches.2⟩
    ⟨hbtouches.1, Nat.lt_succ_of_le hbtouches.2⟩

theorem wordAt_eq_none_iff {column : Nat} :
    wordAt line column = none ↔ ∀ word ∈ words line, ¬word.Touches (offsetAt line column) := by
  rw [Option.eq_none_iff_forall_ne_some]
  apply forall_congr'
  intro word
  rw [ne_eq, wordAt_eq_some_iff, not_and]
  rfl

theorem takeWhile_encodeUtf8 (back : List Char) :
    (encodeUtf8 back).takeWhile isWordByte = encodeUtf8 (back.takeWhile isWordChar) := by
  conv_lhs => rw [← @List.takeWhile_append_dropWhile _ isWordChar back, encodeUtf8_append]
  exact takeWhile_append_of_head?
    (isWordByte_of_mem_encodeUtf8 fun c hc ↦ List.mem_takeWhile_imp hc)
    (head?_encodeUtf8_iff.mpr (head?_dropWhile isWordChar back))

theorem dropEndWhile_encodeUtf8 (front : List Char) :
    dropEndWhile isWordByte (encodeUtf8 front) = encodeUtf8 (dropEndWhile isWordChar front) := by
  conv_lhs => rw [← dropEndWhile_append_takeEndWhile isWordChar front, encodeUtf8_append]
  exact dropEndWhile_append_of_getLast?
    (isWordByte_of_mem_encodeUtf8 fun c hc ↦ List.mem_takeWhile_imp (List.mem_reverse.mp hc))
    (getLast?_encodeUtf8_iff.mpr (getLast?_dropEndWhile isWordChar front))

/-- The two searches in the bytes stop at cuts of the line, and the word at a column is what stands
between them. -/
theorem exists_slice_wordAt (line : List Char) (column : Nat) :
    ∃ chars, IsSlice line (wordStart (encodeUtf8 line) (offsetAt line column))
        (wordStop (encodeUtf8 line) (offsetAt line column)) chars ∧
      wordAt line column =
        if wordStart (encodeUtf8 line) (offsetAt line column) <
            wordStop (encodeUtf8 line) (offsetAt line column) then
          some ⟨wordStart (encodeUtf8 line) (offsetAt line column), chars⟩
        else none := by
  rw [offsetAt, wordAt]
  have hline := splitColumn_append column line
  generalize splitColumn column line = cut at hline ⊢
  obtain ⟨front, back⟩ := cut
  simp only at hline ⊢
  subst hline
  have hstart : wordStart (encodeUtf8 (front ++ back)) (byteSize front) =
      byteSize (dropEndWhile isWordChar front) := by
    rw [wordStart, encodeUtf8_append, ← length_encodeUtf8, List.take_left,
      dropEndWhile_encodeUtf8, length_encodeUtf8]
  have hstop : wordStop (encodeUtf8 (front ++ back)) (byteSize front) =
      byteSize (dropEndWhile isWordChar front ++
        (takeEndWhile isWordChar front ++ back.takeWhile isWordChar)) := by
    rw [wordStop, drop_encodeUtf8_append, takeWhile_encodeUtf8, length_encodeUtf8,
      ← List.append_assoc, dropEndWhile_append_takeEndWhile, byteSize_append]
  rw [hstart, hstop]
  refine ⟨_, ⟨_, back.dropWhile isWordChar, ?_, rfl, rfl⟩, ?_⟩
  · rw [List.append_assoc, List.takeWhile_append_dropWhile, ← List.append_assoc,
      dropEndWhile_append_takeEndWhile]
  · split
    · rename_i hnil
      rw [hnil, List.append_nil, if_neg (Nat.lt_irrefl _)]
    · rename_i c rest hcons
      have hpos := c.utf8Size_pos
      rw [hcons, byteSize_append, byteSize_cons, if_pos (by omega)]

/-- The word at a column is the word that touches the byte offset of the column, and there is none
exactly if no word touches it; no offset has two words that touch it. The word is what stands
between the ends of two searches from the offset for a byte that is no word byte, back and forth.
The offset, these two ends and the ends of every word are cuts of the line. -/
theorem wordAt_is_touching (line : List Char) (column : Nat) :
    (∀ word, wordAt line column = some word ↔
      word ∈ words line ∧ word.Touches (offsetAt line column)) ∧
    (wordAt line column = none ↔ ∀ word ∈ words line, ¬word.Touches (offsetAt line column)) ∧
    (∀ offset, ∀ a ∈ words line, ∀ b ∈ words line, a.Touches offset → b.Touches offset → a = b) ∧
    (∀ word ∈ words line,
      IsSlice line word.offset (word.offset + byteSize word.chars) word.chars) ∧
    IsCut line (offsetAt line column) ∧
    ∃ chars, IsSlice line (wordStart (encodeUtf8 line) (offsetAt line column))
        (wordStop (encodeUtf8 line) (offsetAt line column)) chars ∧
      wordAt line column =
        if wordStart (encodeUtf8 line) (offsetAt line column) <
            wordStop (encodeUtf8 line) (offsetAt line column) then
          some ⟨wordStart (encodeUtf8 line) (offsetAt line column), chars⟩
        else none := by
  refine ⟨fun word ↦ wordAt_eq_some_iff, wordAt_eq_none_iff, ?_, fun word ↦ isSlice_of_mem_words,
    isCut_offsetAt line column, exists_slice_wordAt line column⟩
  intro offset a ha b hb hatouches hbtouches
  exact eq_of_touches ha hb hatouches hbtouches

/-- Two words with one byte between them, after a character of two bytes; at column 3 the cursor is
at the end of the first. -/
theorem wordAt_is_touching_of_neighbours :
    ⟨2, "_x".toList⟩ ∈ words "é_x+y1".toList ∧ (⟨2, "_x".toList⟩ : Word).Touches 4 ∧
      wordAt "é_x+y1".toList 3 = some ⟨2, "_x".toList⟩ ∧
      ∀ word ∈ words "é_x+y1".toList, word.Touches 4 → word = ⟨2, "_x".toList⟩ := by
  have hmem : (⟨2, "_x".toList⟩ : Word) ∈ words "é_x+y1".toList :=
    mem_words_iff.mpr ⟨['é'], "+y1".toList, by decide, by decide, rfl⟩
  have htouches : (⟨2, "_x".toList⟩ : Word).Touches 4 := ⟨by decide, by decide⟩
  have hoffset : offsetAt "é_x+y1".toList 3 = 4 := by decide
  obtain ⟨hfound, -, hunique, -⟩ := wordAt_is_touching "é_x+y1".toList 3
  refine ⟨hmem, htouches, (hfound _).mpr ⟨hmem, by rwa [hoffset]⟩, ?_⟩
  intro word hword hother
  exact hunique 4 word hword _ hmem hother htouches

/-- The words of a line come in the order of their offsets, none is empty, and between two of them
there is a byte that is no word byte. They take up the word bytes of the line and no other bytes. A
word of word bytes is found exactly where it stands in the bytes with no word byte next to it, from
the first place to the last; nothing else is found anywhere. -/
theorem words_are_byte_runs (line : List Char) :
    (∀ word ∈ words line, word.chars ≠ [] ∧
      IsSlice line word.offset (word.offset + byteSize word.chars) word.chars) ∧
    (words line).Pairwise (fun a b ↦ a.offset < b.offset ∧
      ∃ place byte, a.offset + byteSize a.chars ≤ place ∧ place < b.offset ∧
        (encodeUtf8 line)[place]? = some byte ∧ isWordByte byte = false) ∧
    (∀ place byte, (encodeUtf8 line)[place]? = some byte →
      (isWordByte byte ↔ ∃ word ∈ words line, word.offset ≤ place ∧
        place < word.offset + byteSize word.chars)) ∧
    ∀ name : String,
      (wordMatches line name).Pairwise (· < ·) ∧
      (name ≠ "" → (∀ byte ∈ encodeUtf8 name.toList, isWordByte byte) →
        ∀ offset, offset ∈ wordMatches line name ↔
          StandsAlone (encodeUtf8 line) (encodeUtf8 name.toList) offset) ∧
      (name = "" ∨ (∃ byte ∈ encodeUtf8 name.toList, isWordByte byte = false) →
        wordMatches line name = []) := by
  refine ⟨?_, ?_, fun place byte ↦ isWordByte_iff_covered, fun name ↦ ⟨?_, ?_, ?_⟩⟩
  · intro word hword
    obtain ⟨before, after, -, hrun, -⟩ := mem_words_iff.mp hword
    exact ⟨hrun.ne_nil, isSlice_of_mem_words hword⟩
  · apply (pairwise_words line).imp_of_mem
    intro a b ha hb hlt
    exact ⟨by omega, exists_byte_between ha hb hlt⟩
  · exact pairwise_wordMatches line name
  · intro hne hname offset
    exact mem_wordMatches_iff_standsAlone hne hname
  · exact wordMatches_eq_nil

/-- Of the places where the bytes occur, the first ones are parts of longer words. -/
theorem words_are_byte_runs_of_repeated :
    "aa" ≠ "" ∧ (∀ byte ∈ encodeUtf8 "aa".toList, isWordByte byte) ∧
      9 ∈ wordMatches "aa_aa é aa".toList "aa" ∧ 3 ∉ wordMatches "aa_aa é aa".toList "aa" := by
  have hne : "aa" ≠ "" := by decide
  have hname : ∀ byte ∈ encodeUtf8 "aa".toList, isWordByte byte := by decide +kernel
  have hmatches := ((words_are_byte_runs "aa_aa é aa".toList).2.2.2 "aa").2.1 hne hname
  refine ⟨hne, hname, (hmatches 9).mpr ?_, mt (hmatches 3).mp ?_⟩
  · exact ⟨encodeUtf8 "aa_aa é ".toList, [], by decide, by decide, by decide +kernel,
      by decide +kernel⟩
  · rintro ⟨front, back, hbytes, hlength, hfront, -⟩
    have hcut : front = (encodeUtf8 "aa_aa é aa".toList).take 3 := by
      rw [hbytes, hlength, List.take_left]
    have hlast : front.getLast? = some 0x5F := by
      rw [hcut]
      decide
    exact absurd (hfront 0x5F hlast) (by decide)

end ScriptSense.Text
