import ScriptSense.Text.Column
import ScriptSense.Text.Utf8

/-!
# Texts are read back from their bytes

A character is written with its code in digits to the base 64, the highest digit in the first byte
and each other digit in a byte of its own. The reader takes the digits back from these bytes and
stops right after them, so every text is what is read from its bytes.
-/

namespace ScriptSense.Text

section Digits

variable {value count digit x y z w : Nat} {low high a b c d : UInt8} {rest : List UInt8}

theorem decodeTail_cons (hb : b.toNat = digit + 0x80) (hdigit : digit < 64)
    (hlow : low.toNat ≤ digit + 0x80) (hhigh : digit + 0x80 ≤ high.toNat) :
    decodeTail value (count + 1) low high (b :: rest) =
      decodeTail (value * 64 + digit) count 0x80 0xBF rest := by
  have hlow' : low ≤ b := UInt8.le_iff_toNat_le.mpr (hb ▸ hlow)
  have hhigh' : b ≤ high := UInt8.le_iff_toNat_le.mpr (hb ▸ hhigh)
  have htail : addTail value b = value * 64 + digit := by
    rw [addTail, hb]
    omega
  rw [decodeTail, decide_eq_true hlow', decide_eq_true hhigh', htail]
  rfl

/-- Any digit may follow where the digits before it leave no choice of the character's length. -/
theorem decodeTail_digit (hb : b.toNat = digit + 0x80) (hdigit : digit < 64) :
    decodeTail value (count + 1) 0x80 0xBF (b :: rest) =
      decodeTail (value * 64 + digit) count 0x80 0xBF rest := by
  apply decodeTail_cons hb hdigit
  · exact Nat.le_add_left 0x80 digit
  · change digit + 0x80 ≤ 0xBF
    omega

theorem decodeFirst_one (ha : a.toNat < 0x80) :
    decodeFirst a rest = (some (Char.ofNat a.toNat), rest) := by
  have hascii : a < 0x80 := UInt8.lt_iff_toNat_lt.mpr ha
  rw [decodeFirst, if_pos hascii]

theorem decodeFirst_two (ha : a.toNat = x + 0xC0) (hx : x < 32) (hleast : 2 ≤ x)
    (hb : b.toNat = y + 0x80) (hy : y < 64) :
    decodeFirst a (b :: rest) = (some (Char.ofNat (x * 64 + y)), rest) := by
  have hvalue : a.toNat % 0x20 = x := by omega
  simp only [decodeFirst, UInt8.lt_iff_toNat_lt, hvalue, ← UInt8.toNat_inj, UInt8.reduceToNat]
  rw [if_neg (by omega), if_neg (by omega), if_pos (by omega), decodeTail_digit hb hy, decodeTail]

/-- The shortest code decides what may follow the digit zero, and the surrogates what may follow the
digit thirteen. -/
theorem decodeFirst_three (ha : a.toNat = x + 0xE0) (hx : x < 16) (hb : b.toNat = y + 0x80)
    (hy : y < 64) (hc : c.toNat = z + 0x80) (hz : z < 64) (hleast : x = 0 → 32 ≤ y)
    (hsurrogate : x = 13 → y < 32) :
    decodeFirst a (b :: c :: rest) = (some (Char.ofNat ((x * 64 + y) * 64 + z)), rest) := by
  have hvalue : a.toNat % 0x10 = x := by omega
  simp only [decodeFirst, UInt8.lt_iff_toNat_lt, hvalue, ← UInt8.toNat_inj, UInt8.reduceToNat]
  rw [if_neg (by omega), if_neg (by omega), if_neg (by omega)]
  by_cases hzero : x = 0
  · subst hzero
    rw [if_pos (by omega), decodeTail_cons hb hy, decodeTail_digit hc hz, decodeTail]
    · change 0xA0 ≤ y + 0x80
      omega
    · change y + 0x80 ≤ 0xBF
      omega
  · rw [if_neg (by omega)]
    by_cases hthirteen : x = 13
    · subst hthirteen
      rw [if_pos (by omega), decodeTail_cons hb hy, decodeTail_digit hc hz, decodeTail]
      · exact Nat.le_add_left 0x80 y
      · change y + 0x80 ≤ 0x9F
        omega
    · rw [if_neg (by omega), if_pos (by omega), decodeTail_digit hb hy, decodeTail_digit hc hz,
        decodeTail]

/-- The shortest code decides what may follow the digit zero, and the last code what may follow the
digit four. -/
theorem decodeFirst_four (ha : a.toNat = x + 0xF0) (hx : x ≤ 4) (hb : b.toNat = y + 0x80)
    (hy : y < 64) (hc : c.toNat = z + 0x80) (hz : z < 64) (hd : d.toNat = w + 0x80) (hw : w < 64)
    (hleast : x = 0 → 16 ≤ y) (hlast : x = 4 → y < 16) :
    decodeFirst a (b :: c :: d :: rest) =
      (some (Char.ofNat (((x * 64 + y) * 64 + z) * 64 + w)), rest) := by
  have hvalue : a.toNat % 8 = x := by omega
  simp only [decodeFirst, UInt8.lt_iff_toNat_lt, hvalue, ← UInt8.toNat_inj, UInt8.reduceToNat]
  rw [if_neg (by omega), if_neg (by omega), if_neg (by omega), if_neg (by omega),
    if_neg (by omega), if_neg (by omega)]
  by_cases hzero : x = 0
  · subst hzero
    rw [if_pos (by omega), decodeTail_cons hb hy, decodeTail_digit hc hz, decodeTail_digit hd hw,
      decodeTail]
    · change 0x90 ≤ y + 0x80
      omega
    · change y + 0x80 ≤ 0xBF
      omega
  · rw [if_neg (by omega)]
    by_cases hfour : x = 4
    · subst hfour
      rw [if_neg (by omega), if_pos (by omega), decodeTail_cons hb hy, decodeTail_digit hc hz,
        decodeTail_digit hd hw, decodeTail]
      · exact Nat.le_add_left 0x80 y
      · change y + 0x80 ≤ 0x8F
        omega
    · rw [if_pos (by omega), decodeTail_digit hb hy, decodeTail_digit hc hz,
        decodeTail_digit hd hw, decodeTail]

end Digits

/-- Whatever bytes follow, a character is read back from its own. -/
theorem decodeEach_utf8EncodeChar_append (c : Char) (rest : List UInt8) :
    decodeEach (String.utf8EncodeChar c ++ rest) = some c :: decodeEach rest := by
  have hchar : Char.ofNat c.val.toNat = c := Char.ofNat_toNat c
  have hvalid : c.val.toNat < 0xD800 ∨ 0xDFFF < c.val.toNat ∧ c.val.toNat < 0x110000 := c.valid
  have hbyte (m : Nat) (hm : m < 256) : (UInt8.ofNat m).toNat = m := UInt8.toNat_ofNat_of_lt' hm
  rw [String.utf8EncodeChar]
  generalize c.val.toNat = n at hchar hvalid
  subst hchar
  have hdigit : n % 64 < 64 := Nat.mod_lt n (by decide)
  have hsecond : n / 64 % 64 < 64 := Nat.mod_lt _ (by decide)
  have hthird : n / 4096 % 64 < 64 := Nat.mod_lt _ (by decide)
  by_cases hone : n ≤ 127
  · have ha := hbyte n (by omega)
    rw [if_pos hone, List.singleton_append, decodeEach, decodeFirst_one (by omega), ha]
  rw [if_neg hone]
  by_cases htwo : n ≤ 2047
  · have hsum : n / 64 % 32 * 64 + n % 64 = n := by omega
    have hread := @decodeFirst_two _ _ _ _ rest (hbyte (n / 64 % 32 + 0xC0) (by omega)) (by omega)
      (by omega) (hbyte (n % 64 + 0x80) (by omega)) hdigit
    rw [hsum] at hread
    rw [if_pos htwo, List.cons_append, decodeEach, List.singleton_append, hread]
  rw [if_neg htwo]
  by_cases hthree : n ≤ 65535
  · have hsum : (n / 4096 % 16 * 64 + n / 64 % 64) * 64 + n % 64 = n := by omega
    have hread := @decodeFirst_three _ _ _ _ _ _ rest (hbyte (n / 4096 % 16 + 0xE0) (by omega))
      (by omega) (hbyte (n / 64 % 64 + 0x80) (by omega)) hsecond
      (hbyte (n % 64 + 0x80) (by omega)) hdigit (by omega) (by omega)
    rw [hsum] at hread
    rw [if_pos hthree, List.cons_append, decodeEach, List.cons_append, List.singleton_append, hread]
  · have hsum :
        ((n / 262144 % 8 * 64 + n / 4096 % 64) * 64 + n / 64 % 64) * 64 + n % 64 = n := by omega
    have hread := @decodeFirst_four _ _ _ _ _ _ _ _ rest
      (hbyte (n / 262144 % 8 + 0xF0) (by omega)) (by omega)
      (hbyte (n / 4096 % 64 + 0x80) (by omega)) hthird
      (hbyte (n / 64 % 64 + 0x80) (by omega)) hsecond (hbyte (n % 64 + 0x80) (by omega)) hdigit
      (by omega) (by omega)
    rw [hsum] at hread
    rw [if_neg hthree, List.cons_append, decodeEach, List.cons_append, List.cons_append,
      List.singleton_append, hread]

theorem decodeEach_encodeUtf8 (text : List Char) :
    decodeEach (encodeUtf8 text) = text.map some := by
  induction text with
  | nil => rw [encodeUtf8, List.flatMap_nil, decodeEach, List.map_nil]
  | cons c rest ih =>
    rw [encodeUtf8, List.flatMap_cons, decodeEach_utf8EncodeChar_append, List.map_cons, ← ih,
      encodeUtf8]

/-- A text is read back from its bytes. -/
@[simp] theorem decodeUtf8?_encodeUtf8 (text : List Char) :
    decodeUtf8? (encodeUtf8 text) = some text := by
  have hpure := @List.mapM_pure Option _ _ _ _ text id
  rw [List.map_id] at hpure
  rw [decodeUtf8?, decodeEach_encodeUtf8, List.mapM_map]
  exact hpure

theorem encodeUtf8_injective : Function.Injective encodeUtf8 := by
  intro a b h
  have hread := congrArg decodeUtf8? h
  rw [decodeUtf8?_encodeUtf8, decodeUtf8?_encodeUtf8] at hread
  exact Option.some.inj hread

@[simp] theorem decodeLossy_encodeUtf8 (text : List Char) :
    decodeLossy (encodeUtf8 text) = text := by
  rw [decodeLossy, decodeEach_encodeUtf8, List.map_map]
  exact List.map_id text

theorem encodeUtf8_append (front back : List Char) :
    encodeUtf8 (front ++ back) = encodeUtf8 front ++ encodeUtf8 back :=
  List.flatMap_append

theorem length_encodeUtf8 (text : List Char) : (encodeUtf8 text).length = byteSize text := by
  induction text with
  | nil => rfl
  | cons c rest ih =>
    rw [encodeUtf8, List.flatMap_cons, List.length_append, String.length_utf8EncodeChar,
      byteSize_cons, ← ih, encodeUtf8]

theorem drop_encodeUtf8_append (front back : List Char) :
    (encodeUtf8 (front ++ back)).drop (byteSize front) = encodeUtf8 back := by
  rw [encodeUtf8_append, ← length_encodeUtf8, List.drop_left]

end ScriptSense.Text
