import ScriptSense.Proofs.Text.Columns
import ScriptSense.Proofs.Text.Runs
import ScriptSense.Proofs.Text.Utf8

/-!
# Words in the bytes of a line

The bytes of a character are word bytes if it is a word character, and none of them is one
otherwise. A search for word bytes therefore stops between two characters, where the search for word
characters stops, and the words of a line are the runs of word bytes in its bytes.
-/

namespace ScriptSense.Text

/-- The code of an ASCII letter, a digit or an underscore. -/
def isWordByte (b : UInt8) : Bool :=
  (0x30 ≤ b && b ≤ 0x39) || (0x41 ≤ b && b ≤ 0x5A) || b == 0x5F || (0x61 ≤ b && b ≤ 0x7A)

theorem toNat_of_isWordByte {b : UInt8} (h : isWordByte b) : b.toNat < 0x80 := by
  simp only [isWordByte, Bool.or_eq_true, Bool.and_eq_true, decide_eq_true_eq, beq_iff_eq,
    UInt8.le_iff_toNat_le, ← UInt8.toNat_inj, UInt8.reduceToNat] at h
  omega

theorem isWordByte_ofNat {n : Nat} (h : n < 0x80) :
    isWordByte (UInt8.ofNat n) = isWordChar (Char.ofNat n) := by
  have hall : ∀ n < 0x80, isWordByte (UInt8.ofNat n) = isWordChar (Char.ofNat n) := by
    decide +kernel
  exact hall n h

theorem le_toNat_of_mem {c : Char} (hc : 0x7F < c.val.toNat) {b : UInt8}
    (h : b ∈ String.utf8EncodeChar c) : 0x80 ≤ b.toNat := by
  have hbyte (n : Nat) (hlow : 0x80 ≤ n) (hhigh : n < 256) : 0x80 ≤ (UInt8.ofNat n).toNat := by
    rwa [UInt8.toNat_ofNat_of_lt' hhigh]
  rw [String.utf8EncodeChar] at h
  generalize c.val.toNat = n at hc h
  rw [if_neg (by omega)] at h
  by_cases htwo : n ≤ 2047
  · simp only [if_pos htwo, List.mem_cons, List.not_mem_nil, or_false] at h
    rcases h with rfl | rfl <;> exact hbyte _ (by omega) (by omega)
  rw [if_neg htwo] at h
  by_cases hthree : n ≤ 65535
  · simp only [if_pos hthree, List.mem_cons, List.not_mem_nil, or_false] at h
    rcases h with rfl | rfl | rfl <;> exact hbyte _ (by omega) (by omega)
  · simp only [if_neg hthree, List.mem_cons, List.not_mem_nil, or_false] at h
    rcases h with rfl | rfl | rfl | rfl <;> exact hbyte _ (by omega) (by omega)

/-- A byte of ASCII is a character of its own. -/
theorem eq_ofNat_of_mem {c : Char} {b : UInt8} (h : b ∈ String.utf8EncodeChar c)
    (hascii : b.toNat < 0x80) : c = Char.ofNat b.toNat := by
  have hc : c.val.toNat < 0x80 := by
    by_contra hlarge
    have hbyte := le_toNat_of_mem (by omega) h
    omega
  rw [String.utf8EncodeChar, if_pos (by omega), List.mem_singleton] at h
  rw [h, UInt8.toNat_ofNat_of_lt' (Nat.lt_trans hc (by decide))]
  exact (Char.ofNat_toNat c).symm

/-- The bytes of a character are all of its class. -/
theorem isWordByte_of_mem {c : Char} {b : UInt8} (h : b ∈ String.utf8EncodeChar c) :
    isWordByte b = isWordChar c := by
  by_cases hascii : c.val.toNat < 0x80
  · have hc : Char.ofNat c.val.toNat = c := Char.ofNat_toNat c
    rw [String.utf8EncodeChar, if_pos (by omega), List.mem_singleton] at h
    rw [h, isWordByte_ofNat hascii, hc]
  · have hbyte := le_toNat_of_mem (by omega) h
    have hword : isWordByte b = false := by
      rw [← Bool.not_eq_true]
      intro hb
      have := toNat_of_isWordByte hb
      omega
    rw [hword, eq_comm, ← Bool.not_eq_true]
    intro hc
    have hbounds : c.val.toNat ≤ 0x7A := (toNat_of_isWordChar hc).2
    omega

section Stretches

variable {line front run back : List Char} {b : UInt8} {place : Nat}

theorem isWordByte_of_mem_encodeUtf8 (h : ∀ c ∈ run, isWordChar c) :
    ∀ b ∈ encodeUtf8 run, isWordByte b := by
  intro b hb
  obtain ⟨c, hc, hb⟩ := List.mem_flatMap.mp hb
  rw [isWordByte_of_mem hb]
  exact h c hc

theorem isWordChar_of_isWordByte (h : ∀ b ∈ encodeUtf8 run, isWordByte b) :
    ∀ c ∈ run, isWordChar c := by
  intro c hc
  obtain ⟨b, hb⟩ := List.exists_mem_of_ne_nil (String.utf8EncodeChar c) String.utf8EncodeChar_ne_nil
  rw [← isWordByte_of_mem hb]
  exact h b (List.mem_flatMap.mpr ⟨c, hc, hb⟩)

theorem head?_encodeUtf8_iff : (∀ b ∈ (encodeUtf8 back).head?, isWordByte b = false) ↔
    ∀ c ∈ back.head?, isWordChar c = false := by
  cases back with
  | nil => simp [encodeUtf8]
  | cons c rest =>
    obtain ⟨b, bytes, hbytes⟩ := List.exists_cons_of_ne_nil String.utf8EncodeChar_ne_nil
    have hclass : isWordByte b = isWordChar c := isWordByte_of_mem (hbytes ▸ List.mem_cons_self)
    rw [encodeUtf8, List.flatMap_cons, hbytes]
    simp [hclass]

theorem getLast?_encodeUtf8_iff : (∀ b ∈ (encodeUtf8 front).getLast?, isWordByte b = false) ↔
    ∀ c ∈ front.getLast?, isWordChar c = false := by
  induction front using List.reverseRecOn with
  | nil => simp [encodeUtf8]
  | append_singleton rest c =>
    obtain ⟨bytes, b, hbytes⟩ :=
      (List.eq_nil_or_concat' (String.utf8EncodeChar c)).resolve_left String.utf8EncodeChar_ne_nil
    have hclass : isWordByte b = isWordChar c := isWordByte_of_mem (by simp [hbytes])
    have hlast : encodeUtf8 [c] = bytes ++ [b] := (List.flatMap_singleton _ c).trans hbytes
    rw [encodeUtf8_append, hlast, ← List.append_assoc]
    simp [hclass]

/-- Every byte of a line is a byte of one of its characters. -/
theorem exists_char_of_getElem? (h : (encodeUtf8 line)[place]? = some b) :
    ∃ before c after, line = before ++ c :: after ∧ b ∈ String.utf8EncodeChar c ∧
      byteSize before ≤ place ∧ place < byteSize before + c.utf8Size := by
  induction line generalizing place with
  | nil => simp [encodeUtf8] at h
  | cons c rest ih =>
    rw [encodeUtf8, List.flatMap_cons] at h
    by_cases hfirst : place < (String.utf8EncodeChar c).length
    · rw [List.getElem?_append_left hfirst] at h
      rw [String.length_utf8EncodeChar] at hfirst
      exact ⟨[], c, rest, rfl, List.mem_of_getElem? h, Nat.zero_le _, by simpa using hfirst⟩
    · rw [List.getElem?_append_right (by omega), String.length_utf8EncodeChar] at h
      rw [String.length_utf8EncodeChar] at hfirst
      obtain ⟨before, d, after, rfl, hb, hle, hlt⟩ := ih h
      refine ⟨c :: before, d, after, rfl, hb, ?_, ?_⟩
      · rw [byteSize_cons]
        omega
      · rw [byteSize_cons]
        omega

/-- The bytes that a stretch of a line takes up are its own. -/
theorem mem_encodeUtf8_of_getElem? (h : (encodeUtf8 (front ++ (run ++ back)))[place]? = some b)
    (hstart : byteSize front ≤ place) (hstop : place < byteSize front + byteSize run) :
    b ∈ encodeUtf8 run := by
  rw [encodeUtf8_append, encodeUtf8_append,
    List.getElem?_append_right (by rwa [length_encodeUtf8]),
    List.getElem?_append_left (by rw [length_encodeUtf8, length_encodeUtf8]; omega)] at h
  exact List.mem_of_getElem? h

end Stretches

end ScriptSense.Text
