import ScriptSense.Proofs.Text.Mask
import ScriptSense.Proofs.Text.Words

/-!
# Literals pair the quotes of a line

To pair the quotes of a line from left to right is to leave no choice: a quote in no pair has none
of its kind after it, so what starts a pair is known once the pairs before it are, and the pair ends
at the next quote of its kind. The literals of a line are this pairing. A quote is no part of a
word, so a word that starts in a literal ends in it too, and any other word meets none.
-/

namespace ScriptSense.Text

/-- The code of a double or a single quote. -/
def isQuoteByte (b : UInt8) : Bool :=
  b == 0x22 || b == 0x27

/-- The span goes from a quote through the next one of its kind; no quote is paired with itself. -/
structure ByteSpan.IsQuoted (span : ByteSpan) (bytes : List UInt8) (quote : UInt8) : Prop where
  isQuote : isQuoteByte quote
  ordered : span.start + 1 < span.stop
  inRange : span.stop ≤ bytes.length
  first : bytes[span.start]? = some quote
  last : bytes[span.stop - 1]? = some quote
  inside : ∀ place, span.start < place → place + 1 < span.stop → bytes[place]? ≠ some quote

/-- The spans take the quotes two by two, in order and apart from each other, so that their starts
increase, and a quote in none of them has no quote of its kind anywhere after it. -/
structure IsPairing (bytes : List UInt8) (spans : List ByteSpan) : Prop where
  quoted : ∀ span ∈ spans, ∃ quote, span.IsQuoted bytes quote
  apart : spans.Pairwise fun a b ↦ a.stop ≤ b.start
  unpaired : ∀ place quote, bytes[place]? = some quote → isQuoteByte quote →
    (∀ span ∈ spans, span.contains place = false) →
    ∀ later, place < later → bytes[later]? ≠ some quote

/-- The word is strictly between the two ends of the span. -/
def ByteSpan.Surrounds (span : ByteSpan) (word : Word) : Prop :=
  span.start < word.offset ∧ word.offset + byteSize word.chars < span.stop

/-- The word and the span have no byte in common. -/
def ByteSpan.Avoids (span : ByteSpan) (word : Word) : Prop :=
  word.offset + byteSize word.chars ≤ span.start ∨ span.stop ≤ word.offset

variable {bytes front back : List UInt8} {spans others : List ByteSpan} {span a b : ByteSpan}
  {quote other : UInt8} {place : Nat}

namespace ByteSpan.IsQuoted

theorem stop_le (ha : a.IsQuoted bytes quote) (hb : b.IsQuoted bytes quote)
    (hstart : a.start = b.start) : b.stop ≤ a.stop := by
  have hordered := ha.ordered
  by_contra hlt
  exact hb.inside (a.stop - 1) (by omega) (by omega) ha.last

/-- A quote is paired with the next one of its kind and with no other. -/
theorem eq_of_start_eq (ha : a.IsQuoted bytes quote) (hb : b.IsQuoted bytes other)
    (hstart : a.start = b.start) : a = b := by
  have hquote : quote = other := by
    apply Option.some.inj
    rw [← ha.first, hstart, hb.first]
  subst hquote
  have hstop : a.stop = b.stop :=
    Nat.le_antisymm (hb.stop_le ha hstart.symm) (ha.stop_le hb hstart)
  cases a
  cases b
  simp_all

end ByteSpan.IsQuoted

namespace IsPairing

theorem areApart (h : IsPairing bytes spans) : AreApart ByteSpan.start ByteSpan.stop spans where
  nonempty span hspan := by
    obtain ⟨quote, hquoted⟩ := h.quoted span hspan
    exact Nat.lt_of_succ_lt hquoted.ordered
  ordered := h.apart

/-- The first quote of a span has one of its kind after it, so it is in a span of every pairing. -/
theorem startIn (h : IsPairing bytes spans) (hother : IsPairing bytes others) :
    StartIn ByteSpan.start ByteSpan.stop spans others := by
  intro span hspan
  obtain ⟨quote, hquoted⟩ := h.quoted span hspan
  have hordered := hquoted.ordered
  by_contra hnone
  have houtside : ∀ found ∈ others, found.contains span.start = false := by
    intro found hfound
    rw [← Bool.not_eq_true, ByteSpan.contains_iff]
    exact fun hcontains ↦ hnone ⟨found, hfound, hcontains⟩
  exact hother.unpaired _ quote hquoted.first hquoted.isQuote houtside (span.stop - 1)
    (by omega) hquoted.last

/-- The quotes of a line can be paired in one way only. -/
theorem unique (h : IsPairing bytes spans) (hother : IsPairing bytes others) : spans = others := by
  apply h.areApart.eq_of_startIn hother.areApart (h.startIn hother) (hother.startIn h)
  intro a ha b hb hstart
  obtain ⟨quote, hquoted⟩ := h.quoted a ha
  obtain ⟨other, hotherQuoted⟩ := hother.quoted b hb
  exact hquoted.eq_of_start_eq hotherQuoted hstart

end IsPairing

/-! ## A pairing in two parts -/

theorem ByteSpan.IsQuoted.append_right (h : span.IsQuoted front quote) (back : List UInt8) :
    span.IsQuoted (front ++ back) quote := by
  have hordered := h.ordered
  have hrange := h.inRange
  refine ⟨h.isQuote, hordered, ?_, ?_, ?_, ?_⟩
  · rw [List.length_append]
    omega
  · rw [List.getElem?_append_left (by omega), h.first]
  · rw [List.getElem?_append_left (by omega), h.last]
  · intro place hstart hstop
    rw [List.getElem?_append_left (by omega)]
    exact h.inside place hstart hstop

theorem ByteSpan.IsQuoted.append_left (h : span.IsQuoted back quote) (front : List UInt8) :
    (span.moveRight front.length).IsQuoted (front ++ back) quote := by
  have hordered := h.ordered
  have hrange := h.inRange
  refine ⟨h.isQuote, ?_, ?_, ?_, ?_, ?_⟩
  · simp only [moveRight]
    omega
  · simp only [moveRight, List.length_append]
    omega
  · simp only [moveRight]
    rw [List.getElem?_append_right (by omega), Nat.add_sub_cancel_left, h.first]
  · simp only [moveRight]
    rw [List.getElem?_append_right (by omega), Nat.add_sub_assoc (by omega),
      Nat.add_sub_cancel_left, h.last]
  · simp only [moveRight]
    intro place hstart hstop
    rw [List.getElem?_append_right (by omega)]
    exact h.inside _ (by omega) (by omega)

/-- Two parts are paired each on its own if no quote that is open in the first is in the second. -/
theorem IsPairing.append (hfront : IsPairing front spans) (hback : IsPairing back others)
    (hopen : ∀ place quote, front[place]? = some quote → isQuoteByte quote →
      (∀ span ∈ spans, span.contains place = false) → quote ∉ back) :
    IsPairing (front ++ back) (spans ++ others.map (ByteSpan.moveRight front.length)) where
  quoted := by
    intro span hspan
    rcases List.mem_append.mp hspan with hspan | hspan
    · obtain ⟨quote, hquoted⟩ := hfront.quoted span hspan
      exact ⟨quote, hquoted.append_right back⟩
    · obtain ⟨moved, hmoved, rfl⟩ := List.mem_map.mp hspan
      obtain ⟨quote, hquoted⟩ := hback.quoted moved hmoved
      exact ⟨quote, hquoted.append_left front⟩
  apart := by
    rw [List.pairwise_append, List.pairwise_map]
    refine ⟨hfront.apart, hback.apart.imp ?_, ?_⟩
    · intro a b hle
      exact Nat.add_le_add_left hle front.length
    · intro a ha b hb
      obtain ⟨quote, hquoted⟩ := hfront.quoted a ha
      obtain ⟨moved, -, rfl⟩ := List.mem_map.mp hb
      exact Nat.le_trans hquoted.inRange (Nat.le_add_right _ _)
  unpaired := by
    intro place quote hplace hquote houtside later hlater
    obtain ⟨houtside, hmoved⟩ := List.forall_mem_append.mp houtside
    by_cases hfirst : place < front.length
    · rw [List.getElem?_append_left hfirst] at hplace
      by_cases hnear : later < front.length
      · rw [List.getElem?_append_left hnear]
        exact hfront.unpaired place quote hplace hquote houtside later hlater
      · rw [List.getElem?_append_right (by omega)]
        exact fun hlast ↦ hopen place quote hplace hquote houtside (List.mem_of_getElem? hlast)
    · obtain ⟨rest, rfl⟩ := Nat.exists_eq_add_of_le (Nat.le_of_not_lt hfirst)
      rw [List.getElem?_append_right (by omega), Nat.add_sub_cancel_left] at hplace
      rw [List.getElem?_append_right (by omega)]
      apply hback.unpaired rest quote hplace hquote _ _ (by omega)
      intro span hspan
      rw [← ByteSpan.contains_moveRight front.length]
      exact hmoved _ (List.mem_map_of_mem hspan)

theorem isPairing_nil : IsPairing [] [] where
  quoted := by simp
  apart := .nil
  unpaired := by simp

/-- A literal and what comes after it: no quote of the literal is open. -/
theorem IsPairing.cons_literal {body : List UInt8} (hquote : isQuoteByte quote)
    (hbody : quote ∉ body) (h : IsPairing back spans) :
    IsPairing (quote :: (body ++ quote :: back))
      (⟨0, body.length + 2⟩ :: spans.map (ByteSpan.moveRight (body.length + 2))) := by
  have hlength : (quote :: (body ++ [quote])).length = body.length + 2 := by simp
  have hoccupied (place : Nat) (found : UInt8)
      (hplace : (quote :: (body ++ [quote]))[place]? = some found) :
      ¬∀ span ∈ [(⟨0, body.length + 2⟩ : ByteSpan)], span.contains place = false := by
    obtain ⟨hlt, -⟩ := List.getElem?_eq_some_iff.mp hplace
    intro houtside
    have hnot := houtside _ List.mem_cons_self
    rw [← Bool.not_eq_true, ByteSpan.contains_iff] at hnot
    exact hnot ⟨Nat.zero_le place, hlength ▸ hlt⟩
  have hliteral : IsPairing (quote :: (body ++ [quote])) [⟨0, body.length + 2⟩] := by
    refine ⟨?_, List.pairwise_singleton _ _, ?_⟩
    · intro span hspan
      rw [List.mem_singleton.mp hspan]
      refine ⟨quote, hquote, by simp, by simp, rfl, by simp, ?_⟩
      intro place hstart hstop
      obtain ⟨inner, rfl⟩ := Nat.exists_eq_add_of_lt hstart
      simp only at hstop
      rw [Nat.zero_add, List.getElem?_cons_succ, List.getElem?_append_left (by omega)]
      exact fun hinner ↦ hbody (List.mem_of_getElem? hinner)
    · intro place found hplace _ houtside
      exact absurd houtside (hoccupied place found hplace)
  have happend := hliteral.append h fun place found hplace _ houtside ↦
    absurd houtside (hoccupied place found hplace)
  rwa [hlength, List.cons_append, List.append_assoc] at happend

/-- A quote that is not closed, or bytes that are no quotes, and what comes after. -/
theorem IsPairing.append_open (h : IsPairing back spans)
    (hopen : ∀ b ∈ front, isQuoteByte b → front = [b] ∧ b ∉ back) :
    IsPairing (front ++ back) (spans.map (ByteSpan.moveRight front.length)) := by
  have hfront : IsPairing front [] := by
    refine ⟨by simp, .nil, ?_⟩
    intro place quote hplace hquote _ later hlater
    rw [(hopen quote (List.mem_of_getElem? hplace) hquote).1]
    obtain ⟨rest, rfl⟩ := Nat.exists_eq_add_of_lt hlater
    simp
  apply hfront.append h
  intro place quote hplace hquote _
  exact (hopen quote (List.mem_of_getElem? hplace) hquote).2

section Quotes

variable {c : Char} {line : List Char}

theorem isQuoteByte_iff : isQuoteByte quote ↔ quote = 0x22 ∨ quote = 0x27 := by
  rw [isQuoteByte, Bool.or_eq_true, beq_iff_eq, beq_iff_eq]

theorem utf8EncodeChar_of_isQuote (h : isQuote c) : String.utf8EncodeChar c = [c.toUInt8] := by
  rcases isQuote_iff.mp h with rfl | rfl <;> rfl

theorem isQuoteByte_toUInt8 (h : isQuote c) : isQuoteByte c.toUInt8 := by
  rcases isQuote_iff.mp h with rfl | rfl <;> rfl

theorem isQuote_of_mem (hquote : isQuoteByte quote) (h : quote ∈ String.utf8EncodeChar c) :
    isQuote c := by
  rcases isQuoteByte_iff.mp hquote with rfl | rfl
  · rw [eq_ofNat_of_mem h (by decide)]
    rfl
  · rw [eq_ofNat_of_mem h (by decide)]
    rfl

theorem toUInt8_mem_encodeUtf8_iff (h : isQuote c) : c.toUInt8 ∈ encodeUtf8 line ↔ c ∈ line := by
  rw [encodeUtf8, List.mem_flatMap]
  constructor
  · rintro ⟨d, hd, hmem⟩
    have hsame : d = c := by
      rcases isQuote_iff.mp h with rfl | rfl
      · exact eq_ofNat_of_mem hmem (by decide)
      · exact eq_ofNat_of_mem hmem (by decide)
    exact hsame ▸ hd
  · intro hc
    exact ⟨c, hc, by rw [utf8EncodeChar_of_isQuote h, List.mem_singleton]⟩

end Quotes

/-! ## The literals of a line -/

section Literals

variable {c : Char} {body back rest line : List Char} {word : Word}

theorem literals_literal (hquote : isQuote c) (hbody : c ∉ body) (back : List Char) :
    literals (c :: (body ++ c :: back)) =
      ⟨0, byteSize body + 2⟩ :: (literals back).map (ByteSpan.moveRight (byteSize body + 2)) := by
  rw [literals, literalsFrom_literal hquote hbody, Nat.zero_add, literals, ← literalsFrom_add,
    Nat.add_zero]

theorem literals_cons_of_open (h : ¬(isQuote c && rest.contains c)) :
    literals (c :: rest) = (literals rest).map (ByteSpan.moveRight c.utf8Size) := by
  rw [literals, literalsFrom, if_neg h, Nat.zero_add, literals, ← literalsFrom_add, Nat.add_zero]

theorem isPairing_cons_literal (hquote : isQuote c) (hbody : c ∉ body)
    (h : IsPairing (encodeUtf8 back) (literals back)) :
    IsPairing (encodeUtf8 (c :: (body ++ c :: back))) (literals (c :: (body ++ c :: back))) := by
  have hbytes : encodeUtf8 (c :: (body ++ c :: back)) =
      c.toUInt8 :: (encodeUtf8 body ++ c.toUInt8 :: encodeUtf8 back) := by
    simp [encodeUtf8, utf8EncodeChar_of_isQuote hquote]
  have hnot : c.toUInt8 ∉ encodeUtf8 body := mt (toUInt8_mem_encodeUtf8_iff hquote).mp hbody
  rw [hbytes, literals_literal hquote hbody, ← length_encodeUtf8]
  exact h.cons_literal (isQuoteByte_toUInt8 hquote) hnot

theorem isPairing_cons_open (hopen : ¬(isQuote c && rest.contains c))
    (h : IsPairing (encodeUtf8 rest) (literals rest)) :
    IsPairing (encodeUtf8 (c :: rest)) (literals (c :: rest)) := by
  have hbytes : encodeUtf8 (c :: rest) = String.utf8EncodeChar c ++ encodeUtf8 rest :=
    List.flatMap_cons
  rw [hbytes, literals_cons_of_open hopen, ← String.length_utf8EncodeChar]
  apply h.append_open
  intro b hb hquote
  have hc := isQuote_of_mem hquote hb
  rw [hc, Bool.true_and, List.contains_iff_mem] at hopen
  rw [utf8EncodeChar_of_isQuote hc, List.mem_singleton] at hb
  rw [utf8EncodeChar_of_isQuote hc, hb, toUInt8_mem_encodeUtf8_iff hc]
  exact ⟨rfl, hopen⟩

/-- The literals of a line are a pairing of its quotes. -/
theorem isPairing_literals (line : List Char) : IsPairing (encodeUtf8 line) (literals line) := by
  -- A literal takes up several characters at once, so the induction is on the length of the line.
  induction hlength : line.length using Nat.strongRecOn generalizing line with
  | ind length ih =>
    cases line with
    | nil =>
      rw [literals, literalsFrom]
      exact isPairing_nil
    | cons c rest =>
      by_cases hliteral : isQuote c && rest.contains c
      · obtain ⟨hquote, hclosed⟩ := Bool.and_eq_true_iff.mp hliteral
        obtain ⟨body, back, rfl, hbody⟩ :=
          List.eq_append_cons_of_mem (List.contains_iff_mem.mp hclosed)
        have hshorter : back.length < length := by
          rw [← hlength, List.length_cons, List.length_append, List.length_cons]
          omega
        exact isPairing_cons_literal hquote hbody (ih _ hshorter back rfl)
      · have hshorter : rest.length < length := hlength ▸ Nat.lt_succ_self _
        exact isPairing_cons_open hliteral (ih _ hshorter rest rfl)

/-- No quote stands in a word. -/
theorem place_of_isQuoteByte (hword : word ∈ words line)
    (hplace : (encodeUtf8 line)[place]? = some quote) (hquote : isQuoteByte quote) :
    place < word.offset ∨ word.offset + byteSize word.chars ≤ place := by
  have hnot : isWordByte quote = false := by
    rcases isQuoteByte_iff.mp hquote with rfl | rfl <;> rfl
  by_contra hwithin
  have hcovered := (isWordByte_iff_covered hplace).mpr ⟨word, hword, by omega, by omega⟩
  rw [hnot] at hcovered
  contradiction

/-- The closing quote is not in the word, so the word ends before it. -/
theorem ByteSpan.IsQuoted.surrounds (h : span.IsQuoted (encodeUtf8 line) quote)
    (hword : word ∈ words line) (hcontains : span.contains word.offset) : span.Surrounds word := by
  have hordered := h.ordered
  have hfirst := place_of_isQuoteByte hword h.first h.isQuote
  have hlast := place_of_isQuoteByte hword h.last h.isQuote
  obtain ⟨before, after, -, hrun, -⟩ := mem_words_iff.mp hword
  have hsize : byteSize word.chars ≠ 0 := mt byteSize_eq_zero.mp hrun.ne_nil
  rw [contains_iff] at hcontains
  rw [Surrounds]
  omega

/-- The opening quote is not in the word, so a word that starts before it ends before it. -/
theorem ByteSpan.IsQuoted.avoids (h : span.IsQuoted (encodeUtf8 line) quote)
    (hword : word ∈ words line) (hcontains : ¬span.contains word.offset) : span.Avoids word := by
  have hfirst := place_of_isQuoteByte hword h.first h.isQuote
  rw [contains_iff] at hcontains
  rw [Avoids]
  omega

theorem existsUnique_surrounds (hword : word ∈ words line) (h : inLiteral line word.offset) :
    ∃! span, span ∈ literals line ∧ span.Surrounds word := by
  obtain ⟨span, hspan, hcontains⟩ := List.any_eq_true.mp h
  obtain ⟨quote, hquoted⟩ := (isPairing_literals line).quoted span hspan
  refine ⟨span, ⟨hspan, hquoted.surrounds hword hcontains⟩, ?_⟩
  rintro other ⟨hother, hstart, hstop⟩
  exact (isPairing_literals line).areApart.eq_of_common hother hspan
    ⟨Nat.le_of_lt hstart, by omega⟩ (ByteSpan.contains_iff.mp hcontains)

theorem avoids_of_not_inLiteral (hword : word ∈ words line)
    (h : inLiteral line word.offset = false) : ∀ span ∈ literals line, span.Avoids word := by
  intro span hspan
  obtain ⟨quote, hquoted⟩ := (isPairing_literals line).quoted span hspan
  exact hquoted.avoids hword (List.any_eq_false.mp h span hspan)

/-- The literals of a line pair its quotes, and nothing else does: they are within the line, in
order and apart from each other, each of them goes from a quote to the next one of its kind, and a
quote in none of them has none of its kind after it. A word of the line lies strictly within one
literal, or has no byte in common with any, and where it starts tells which. -/
theorem literals_pair_quotes (line : List Char) :
    (∀ spans, IsPairing (encodeUtf8 line) spans ↔ spans = literals line) ∧
    ∀ word ∈ words line,
      (inLiteral line word.offset = true ∧ ∃! span, span ∈ literals line ∧ span.Surrounds word) ∨
      (inLiteral line word.offset = false ∧ ∀ span ∈ literals line, span.Avoids word) := by
  constructor
  · intro spans
    constructor
    · intro h
      exact h.unique (isPairing_literals line)
    · rintro rfl
      exact isPairing_literals line
  · intro word hword
    cases h : inLiteral line word.offset with
    | true => exact .inl ⟨rfl, existsUnique_surrounds hword h⟩
    | false => exact .inr ⟨rfl, avoids_of_not_inLiteral hword h⟩

/-- A literal with a character of two bytes and a quote of the other kind in it, and after it a
quote that is not closed. -/
def nestedLine : List Char := "'é \"a' b \"c".toList

/-- The two double quotes are not a pair, though one of them follows the other. -/
theorem literals_pair_quotes_of_nested :
    IsPairing (encodeUtf8 nestedLine) [⟨0, 7⟩] ∧ ¬IsPairing (encodeUtf8 nestedLine) [⟨4, 11⟩] ∧
      (⟨5, ['a']⟩ : Word) ∈ words nestedLine ∧
      (∃! span, span ∈ literals nestedLine ∧ span.Surrounds ⟨5, ['a']⟩) ∧
      (⟨8, ['b']⟩ : Word) ∈ words nestedLine ∧
      ∀ span ∈ literals nestedLine, span.Avoids ⟨8, ['b']⟩ := by
  have hliterals : literals nestedLine = [⟨0, 7⟩] := by decide +kernel
  have hinside : (⟨5, ['a']⟩ : Word) ∈ words nestedLine :=
    mem_words_iff.mpr ⟨"'é \"".toList, "' b \"c".toList, by decide, by decide, rfl⟩
  have houtside : (⟨8, ['b']⟩ : Word) ∈ words nestedLine :=
    mem_words_iff.mpr ⟨"'é \"a' ".toList, " \"c".toList, by decide, by decide, rfl⟩
  have hstarts : inLiteral nestedLine 5 = true ∧ inLiteral nestedLine 8 = false := by
    decide +kernel
  obtain ⟨hpairing, hwords⟩ := literals_pair_quotes nestedLine
  refine ⟨(hpairing _).mpr hliterals.symm, ?_, hinside, ?_, houtside, ?_⟩
  · rw [hpairing, hliterals]
    decide
  · rcases hwords _ hinside with ⟨-, hsurrounded⟩ | ⟨hstart, -⟩
    · exact hsurrounded
    · simp only [hstarts.1, Bool.true_eq_false] at hstart
  · rcases hwords _ houtside with ⟨hstart, -⟩ | ⟨-, havoided⟩
    · simp only [hstarts.2, Bool.false_eq_true] at hstart
    · exact havoided

end Literals

end ScriptSense.Text
