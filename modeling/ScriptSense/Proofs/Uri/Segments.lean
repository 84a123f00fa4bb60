import ScriptSense.Proofs.Text.Lines
import ScriptSense.Proofs.Uri.Percent

/-!
# Names as segments of paths

A path takes a segment as it is if nothing in it has to be encoded, no slash divides it, and it is
neither a drive letter nor made of dots. The encoding of a name is such a segment, unless the name
itself is a drive letter or made of dots: an encoded dot counts as a dot, but the encoding of any
other name is read back as that name.
-/

namespace ScriptSense.Uri

/-- The characters that a segment of a path cannot hold, besides the control characters. -/
def segmentSet : List Char := pathSet ++ ['/', '\\']

theorem mustEncode_mono {small large : List Char} (hsubset : small ⊆ large) {c : Char}
    (h : mustEncode small c) : mustEncode large c := by
  simp only [mustEncode, Bool.or_eq_true, List.contains_iff_mem] at h ⊢
  exact h.imp id (@hsubset c)

theorem ne_of_mustEncode {set : List Char} {c d : Char} (h : mustEncode set c = false)
    (hd : mustEncode set d) : c ≠ d := by
  rintro rfl
  exact absurd hd (Bool.eq_false_iff.mp h)

/-- The percent signs and digits of the encoding can stand in a segment. -/
theorem mustEncode_eq_false_of_mem_encodeByte {b : UInt8} {c : Char} (h : c ∈ encodeByte b) :
    mustEncode segmentSet c = false := by
  have hdigit : ∀ n < 16, mustEncode segmentSet (hexDigit n) = false := by decide
  have hb := b.toNat_lt
  simp only [encodeByte, List.mem_cons, List.not_mem_nil, or_false] at h
  rcases h with rfl | rfl | rfl
  · decide
  · exact hdigit _ (by omega)
  · exact hdigit _ (by omega)

theorem mustEncode_eq_false_of_mem_encode {name : List Char} {c : Char}
    (h : c ∈ encode nameSet name) : mustEncode segmentSet c = false := by
  obtain ⟨d, -, hc⟩ := List.mem_flatMap.mp h
  unfold encodeChar at hc
  split at hc
  · obtain ⟨b, -, hc⟩ := List.mem_flatMap.mp hc
    exact mustEncode_eq_false_of_mem_encodeByte hc
  · rename_i hplain
    rw [List.mem_singleton.mp hc]
    have hsubset : segmentSet ⊆ nameSet := by decide
    exact Bool.eq_false_iff.mpr (mt (mustEncode_mono hsubset) hplain)

theorem encode_eq_self {set text : List Char} (h : ∀ c ∈ text, mustEncode set c = false) :
    encode set text = text := by
  induction text with
  | nil => rfl
  | cons c text ih =>
    obtain ⟨hc, htext⟩ := List.forall_mem_cons.mp h
    rw [encode, List.flatMap_cons, ← encode, ih htext, encodeChar, hc]
    rfl

theorem decode_of_percent_notMem {text : List Char} (h : '%' ∉ text) :
    decode text = Text.encodeUtf8 text := by
  induction text with
  | nil => rfl
  | cons c text ih =>
    obtain ⟨hc, htext⟩ := not_or.mp (mt List.mem_cons.mpr h)
    rw [decode, ih htext, Text.encodeUtf8, Text.encodeUtf8, List.flatMap_cons]
    exact fun _ _ _ heq ↦ absurd heq.symm hc

/-- A text is what is read from its encoding. -/
theorem eq_of_decode_encode {set : List Char} (hset : '%' ∈ set) {text other : List Char}
    (h : decode (encode set text) = Text.encodeUtf8 other) : text = other := by
  rw [decode_encode hset] at h
  exact Text.encodeUtf8_injective h

/-- The encoding has a percent sign wherever it differs from the text. -/
theorem eq_encode_of_percent_notMem {set : List Char} (hset : '%' ∈ set) {text : List Char}
    (h : '%' ∉ encode set text) : text = encode set text :=
  eq_of_decode_encode hset (decode_of_percent_notMem h)

/-- Only letters have another lower case. -/
theorem eq_of_toLower_eq {c d : Char} (hd : d < 'a') (h : c.toLower = d) : c = d := by
  have hval : d.val < 'a'.val := hd
  unfold Char.toLower at h
  split at h
  · subst h
    grind
  · exact h

theorem hexValue?_of_toLower_eq {c : Char} (h : c.toLower = 'e') : hexValue? c = some 14 := by
  unfold Char.toLower at h
  split at h
  · obtain rfl : c = 'E' := by
      apply Char.ext
      have hval := congrArg Char.val h
      grind
    rfl
  · rw [h]
    rfl

/-- However a dot is encoded, it is read as a dot. -/
theorem decode_dot_append {segment : List Char} (h : lowerCase segment ∈ dot) (rest : List Char) :
    decode (segment ++ rest) = Text.encodeUtf8 ['.'] ++ decode rest := by
  simp only [dot, List.mem_cons, List.not_mem_nil, or_false] at h
  rcases h with h | h
  · obtain ⟨c, rfl, hc⟩ := List.map_eq_singleton_iff.mp h
    rw [eq_of_toLower_eq (by decide) hc]
    rfl
  · obtain ⟨a, tail, rfl, ha, h⟩ := List.map_eq_cons_iff.mp h
    obtain ⟨b, tail, rfl, hb, h⟩ := List.map_eq_cons_iff.mp h
    obtain ⟨c, rfl, hc⟩ := List.map_eq_singleton_iff.mp h
    obtain rfl := eq_of_toLower_eq (by decide) ha
    obtain rfl := eq_of_toLower_eq (by decide) hb
    have hdigit : hexValue? '2' = some 2 := by decide
    simp only [List.cons_append, List.nil_append, decode, hdigit, hexValue?_of_toLower_eq hc]
    rfl

theorem decode_of_isSingleDot {segment : List Char} (h : isSingleDot segment) :
    decode segment = Text.encodeUtf8 ['.'] := by
  have hread := decode_dot_append (List.contains_iff_mem.mp h) []
  rwa [List.append_nil] at hread

theorem decode_of_isDoubleDot {segment : List Char} (h : isDoubleDot segment) :
    decode segment = Text.encodeUtf8 ['.', '.'] := by
  obtain ⟨a, ha, h⟩ := List.any_eq_true.mp h
  obtain ⟨b, hb, h⟩ := List.any_eq_true.mp h
  obtain ⟨first, second, rfl, rfl, rfl⟩ := List.map_eq_append_iff.mp (beq_iff_eq.mp h)
  have hread := decode_dot_append hb []
  rw [List.append_nil] at hread
  rw [decode_dot_append ha, hread]
  rfl

/-- Only a drive letter is encoded as one. -/
theorem isDrive_of_isDrive_encode {set : List Char} (hset : '%' ∈ set) {name : List Char}
    (h : isDrive (encode set name)) : isDrive name := by
  have hpercent : '%' ∉ encode set name := by
    intro hmem
    unfold isDrive at h
    split at h
    · rename_i letter mark heq
      rw [heq] at hmem
      simp only [List.mem_cons, List.not_mem_nil, or_false] at hmem
      rcases hmem with rfl | rfl
      · revert h
        simp
      · revert h
        simp [isDriveMark]
    · cases h
  rwa [eq_encode_of_percent_notMem hset hpercent]

/-- A segment that means no more in the path of a file than what it says. -/
structure IsPlain (segment : List Char) : Prop where
  encoded : encode pathSet segment = segment
  slash : ∀ c ∈ segment, isSlash .file c = false
  single : isSingleDot segment = false
  double : isDoubleDot segment = false
  drive : isDrive segment = false

theorem isPlain_encode {name : String} (hsingle : name ≠ ".") (hdouble : name ≠ "..")
    (hdrive : isDrive name.toList = false) : IsPlain (encode nameSet name.toList) where
  encoded := by
    apply encode_eq_self
    intro c hc
    have hsubset : pathSet ⊆ segmentSet := by decide
    have hsegment := Bool.eq_false_iff.mp (mustEncode_eq_false_of_mem_encode hc)
    exact Bool.eq_false_iff.mpr (mt (mustEncode_mono hsubset) hsegment)
  slash c hc := by
    have hsegment := mustEncode_eq_false_of_mem_encode hc
    have hslash : c ≠ '/' := ne_of_mustEncode hsegment (by decide)
    have hbackslash : c ≠ '\\' := ne_of_mustEncode hsegment (by decide)
    simp [isSlash, hslash, hbackslash]
  -- A segment that counts as dots is read as dots, which are then the name.
  single := by
    refine Bool.eq_false_iff.mpr (mt decode_of_isSingleDot fun h ↦ hsingle ?_)
    exact String.toList_inj.mp (eq_of_decode_encode (by decide) h)
  double := by
    refine Bool.eq_false_iff.mpr (mt decode_of_isDoubleDot fun h ↦ hdouble ?_)
    exact String.toList_inj.mp (eq_of_decode_encode (by decide) h)
  drive := by
    rw [Bool.eq_false_iff] at hdrive ⊢
    exact mt (isDrive_of_isDrive_encode (by decide)) hdrive

theorem addSegment_of_isPlain {segment : List Char} (h : IsPlain segment) (path : List Char)
    (slash : Bool) :
    addSegment .file path segment slash = path ++ segment ++ if slash then ['/'] else [] := by
  simp [addSegment, h.double, h.single, h.drive]

/-- Plain segments are put one after the other. -/
theorem addSegments_of_isPlain {first : List Char} {rest : List (List Char)}
    (h : ∀ segment ∈ first :: rest, IsPlain segment) (path : List Char) :
    addSegments .file path (first :: rest) = path ++ first ++ rest.flatMap ('/' :: ·) := by
  induction rest generalizing first path with
  | nil =>
    have hfirst := h first List.mem_cons_self
    rw [addSegments, hfirst.encoded, addSegment_of_isPlain hfirst]
    rfl
  | cons second rest ih =>
    obtain ⟨hfirst, hrest⟩ := List.forall_mem_cons.mp h
    rw [addSegments, hfirst.encoded, addSegment_of_isPlain hfirst, ih hrest, List.flatMap_cons]
    · simp
    · simp

/-- The path of a file that is made of plain segments is what it is written as. -/
theorem buildPath_of_isPlain {first : List Char} {rest : List (List Char)}
    (h : ∀ segment ∈ first :: rest, IsPlain segment) (hne : first ≠ []) :
    buildPath .file ['/'] (first ++ rest.flatMap ('/' :: ·)) =
      (first :: rest).flatMap ('/' :: ·) := by
  have hsplit : Text.splitAt (isSlash .file) (first ++ rest.flatMap ('/' :: ·)) = first :: rest :=
    Text.splitAt_append_flatMap rfl fun segment hsegment ↦ (h segment hsegment).slash
  obtain ⟨c, more, rfl⟩ := List.exists_cons_of_ne_nil hne
  have hc : (c == '/') = false := by
    have hslash := (h _ List.mem_cons_self).slash c List.mem_cons_self
    exact (Bool.or_eq_false_iff.mp hslash).1
  rw [buildPath, hsplit, addSegments_of_isPlain h, if_pos rfl]
  simp [hc]

end ScriptSense.Uri
