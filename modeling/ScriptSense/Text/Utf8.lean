/-!
# Bytes of a text

A text is a sequence of bytes in UTF-8. Bytes that are no character are refused, or read as the
replacement character, one for each longest start of a character that cannot be completed.
-/

namespace ScriptSense.Text

def encodeUtf8 (text : List Char) : List UInt8 :=
  text.flatMap String.utf8EncodeChar

/-- The six bits that a byte after the first adds to a code point. -/
def addTail (value : Nat) (b : UInt8) : Nat :=
  value * 0x40 + b.toNat % 0x40

/-- Reads `count` more bytes of a character; the first of them has to be in the given bounds. -/
def decodeTail (value : Nat) : Nat → UInt8 → UInt8 → List UInt8 → Option Char × List UInt8
  | 0, _, _, bytes => (some (Char.ofNat value), bytes)
  | _ + 1, _, _, [] => (none, [])
  | count + 1, low, high, b :: rest =>
    if low ≤ b && b ≤ high then decodeTail (addTail value b) count 0x80 0xBF rest
    else (none, b :: rest)

/-- Reads a character, or as many bytes as can start one. -/
def decodeFirst (a : UInt8) (rest : List UInt8) : Option Char × List UInt8 :=
  if a < 0x80 then (some (Char.ofNat a.toNat), rest)
  else if a < 0xC2 then (none, rest)
  else if a < 0xE0 then decodeTail (a.toNat % 0x20) 1 0x80 0xBF rest
  else if a = 0xE0 then decodeTail 0 2 0xA0 0xBF rest
  else if a = 0xED then decodeTail 0xD 2 0x80 0x9F rest
  else if a < 0xF0 then decodeTail (a.toNat % 0x10) 2 0x80 0xBF rest
  else if a = 0xF0 then decodeTail 0 3 0x90 0xBF rest
  else if a < 0xF4 then decodeTail (a.toNat % 8) 3 0x80 0xBF rest
  else if a = 0xF4 then decodeTail 4 3 0x80 0x8F rest
  else (none, rest)

theorem length_decodeTail_le (value count : Nat) (low high : UInt8) (bytes : List UInt8) :
    (decodeTail value count low high bytes).2.length ≤ bytes.length := by
  induction bytes generalizing value count low high with
  | nil => cases count <;> simp [decodeTail]
  | cons b rest ih =>
    cases count with
    | zero => simp [decodeTail]
    | succ count =>
      unfold decodeTail
      split
      · exact Nat.le_succ_of_le (ih ..)
      · exact Nat.le_refl _

theorem length_decodeFirst_le (a : UInt8) (rest : List UInt8) :
    (decodeFirst a rest).2.length ≤ rest.length := by
  unfold decodeFirst
  repeat' split
  all_goals first | exact Nat.le_refl _ | exact length_decodeTail_le ..

/-- The characters of a byte sequence, with nothing for bytes that are no character. -/
def decodeEach : List UInt8 → List (Option Char)
  | [] => []
  | a :: rest => (decodeFirst a rest).1 :: decodeEach (decodeFirst a rest).2
termination_by bytes => bytes.length
decreasing_by exact Nat.lt_succ_of_le (length_decodeFirst_le a rest)

/-- The text of a byte sequence, with the replacement character for what is no character. -/
def decodeLossy (bytes : List UInt8) : List Char :=
  (decodeEach bytes).map (·.getD '\uFFFD')

/-- The text of a byte sequence, if all of it is text. -/
def decodeUtf8? (bytes : List UInt8) : Option (List Char) :=
  (decodeEach bytes).mapM id

end ScriptSense.Text
