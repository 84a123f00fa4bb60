import ScriptSense.Json.Basic
import ScriptSense.Json.Read

/-!
# The grammar of JSON texts

A value has many spellings: space may stand around every part, characters may be escaped, and
numbers may be written with a point or an exponent. The grammar says which texts spell a value, by
recursion on the value. The members of an object are kept as they are written, repeated keys
included, so that a spelling determines all that a reader can tell apart.

Each spelling of a character is read as that character and skipped as a whole. A spelling of
characters is taken up to the quote that ends the string, whatever follows it.
-/

namespace ScriptSense.Json

/-- A text of nothing but space. -/
def IsSpace (text : List Char) : Prop :=
  ∀ c ∈ text, isSpace c

/-- Four hexadecimal digits for a UTF-16 unit. -/
inductive SpellsUnit : Nat → List Char → Prop
  | digits {a b c d : Char} {w x y z : Nat} (ha : hexValue? a = some w) (hb : hexValue? b = some x)
    (hc : hexValue? c = some y) (hd : hexValue? d = some z) :
    SpellsUnit (((w * 16 + x) * 16 + y) * 16 + z) [a, b, c, d]

/-- The ways to write a character inside a string. -/
inductive SpellsChar (c : Char) : List Char → Prop
  | plain (hquote : c ≠ '"') (hbackslash : c ≠ '\\') (hcontrol : ¬isControl c) : SpellsChar c [c]
  | letter {mark : Char} (h : escape? mark = some c) : SpellsChar c ['\\', mark]
  | unit {run : List Char} (h : SpellsUnit c.toNat run) : SpellsChar c ('\\' :: 'u' :: run)
  | surrogates {leading trailing : Nat} {first second : List Char}
    (hleading : isLeadingSurrogate leading) (htrailing : isTrailingSurrogate trailing)
    (hfirst : SpellsUnit leading first) (hsecond : SpellsUnit trailing second)
    (h : c.toNat = (leading - 0xD800) * 0x400 + (trailing - 0xDC00) + 0x10000) :
    SpellsChar c ('\\' :: 'u' :: first ++ '\\' :: 'u' :: second)

inductive SpellsChars : List Char → List Char → Prop
  | nil : SpellsChars [] []
  | cons {c : Char} {chars first rest : List Char} (hfirst : SpellsChar c first)
    (hrest : SpellsChars chars rest) : SpellsChars (c :: chars) (first ++ rest)

/-- A string between its quotes. -/
def SpellsString (text : String) (written : List Char) : Prop :=
  ∃ body, SpellsChars text.toList body ∧ written = '"' :: body ++ ['"']

/-- At least one digit, and nothing else. -/
structure IsDigits (run : List Char) : Prop where
  ne_nil : run ≠ []
  isDigit : ∀ c ∈ run, c.isDigit

/-- The power of ten that a number may end with. -/
structure Exponent where
  mark : Char
  sign : Option Char
  run : List Char
  isMark : mark = 'e' ∨ mark = 'E'
  isSign : ∀ c ∈ sign, c = '+' ∨ c = '-'
  isDigits : IsDigits run

/-- A number as it is written: its sign, the digits before and after its point, and its exponent. A
zero at its start stands alone before the point. -/
structure Numeral where
  negative : Bool
  whole : List Char
  fraction : Option (List Char)
  exponent : Option Exponent
  whole_isDigits : IsDigits whole
  leadingZero : whole.head? = some '0' → whole = ['0']
  fraction_isDigits : ∀ run ∈ fraction, IsDigits run

def Exponent.text (exponent : Exponent) : List Char :=
  exponent.mark :: exponent.sign.toList ++ exponent.run

namespace Numeral

def scaleText (numeral : Numeral) : List Char :=
  numeral.exponent.elim [] Exponent.text

def fractionText (numeral : Numeral) : List Char :=
  numeral.fraction.elim [] ('.' :: ·)

def text (numeral : Numeral) : List Char :=
  (if numeral.negative then ['-'] else []) ++ numeral.whole ++ numeral.fractionText ++
    numeral.scaleText

/-- The leading digits that 64 bits hold, and the power of ten of the last of them when there is no
exponent. -/
def significand (numeral : Numeral) : Nat × Int :=
  let (digits, kept) := absorb maxDigits 0 numeral.whole
  let dropped := numeral.whole.length - kept
  match numeral.fraction with
  | none => (digits, dropped)
  | some run =>
    let (digits, kept) := absorb maxDigits digits run
    (digits, dropped - kept)

end Numeral

/-- A floating number with a power of ten. A power that 31 bits do not hold leaves zero. -/
def Exponent.scale (exponent : Exponent) (negative : Bool) (digits : Nat) (power : Int) : Number :=
  let (value, kept) := absorb maxExponent 0 exponent.run
  if kept < exponent.run.length then .floating negative 0 0
  else .floating negative digits
    (if exponent.sign = some '-' then power - value else power + value)

/-- The number that a numeral stands for. It is an integer only if it has neither a point nor an
exponent and 64 bits hold it. -/
def Numeral.number (numeral : Numeral) : Number :=
  let (digits, power) := numeral.significand
  match numeral.fraction, numeral.exponent with
  | none, none =>
    if power = 0 then wholeNumber numeral.negative digits
    else .floating numeral.negative digits power
  | some _, none => .floating numeral.negative digits power
  | _, some exponent => exponent.scale numeral.negative digits power

/-- What precedes an element or a member: space, and a comma unless it is the first. -/
def IsGap (first : Bool) (gap : List Char) : Prop :=
  ∃ before after, IsSpace before ∧ IsSpace after ∧
    gap = before ++ (if first then [] else [',']) ++ after

/-- What stands between a key and its value. -/
def IsColon (colon : List Char) : Prop :=
  ∃ before after, IsSpace before ∧ IsSpace after ∧ colon = before ++ ':' :: after

mutual

/-- A spelling of a value, with no space around it. -/
def Spells : Json → List Char → Prop
  | .null, text => text = ['n', 'u', 'l', 'l']
  | .bool value, text => text = writeBool value
  | .number value, text => ∃ numeral : Numeral, numeral.number = value ∧ text = numeral.text
  | .string value, text => SpellsString value text
  | .array items, text => ∃ body, SpellsItems true items body ∧ text = '[' :: body ++ [']']
  | .object members, text =>
    ∃ body, SpellsMembers true members body ∧ text = '\x7b' :: body ++ ['\x7d']

/-- What stands before the closing bracket of a list, from its first element or a later one on. -/
def SpellsItems (first : Bool) : List Json → List Char → Prop
  | [], text => IsSpace text
  | item :: rest, text =>
    ∃ gap here after, IsGap first gap ∧ Spells item here ∧ SpellsItems false rest after ∧
      text = gap ++ here ++ after

/-- What stands before the closing brace of an object, from its first member or a later one on. -/
def SpellsMembers (first : Bool) : List (String × Json) → List Char → Prop
  | [], text => IsSpace text
  | (key, value) :: rest, text =>
    ∃ gap name colon here after, IsGap first gap ∧ SpellsString key name ∧ IsColon colon ∧
      Spells value here ∧ SpellsMembers false rest after ∧
        text = gap ++ name ++ colon ++ here ++ after

end

/-- A text that spells a value, with space before and after it. -/
def SpellsText (value : Json) (text : String) : Prop :=
  ∃ before here after, IsSpace before ∧ Spells value here ∧ IsSpace after ∧
    text.toList = before ++ here ++ after

theorem readHex_append {unit : Nat} {run : List Char} (h : SpellsUnit unit run)
    (rest : List Char) : readHex (run ++ rest) = .ok (unit, rest) := by
  obtain ⟨ha, hb, hc, hd⟩ := h
  rename_i a b c d w x y z
  have hsize : ¬Text.byteSize (a :: b :: c :: d :: rest) < 4 := by
    have := a.utf8Size_pos
    have := b.utf8Size_pos
    have := c.utf8Size_pos
    have := d.utf8Size_pos
    simp only [Text.byteSize_cons]
    omega
  simp only [List.cons_append, List.nil_append, readHex, if_neg hsize, ha, hb, hc, hd]

theorem not_isSurrogate (c : Char) :
    isTrailingSurrogate c.toNat = false ∧ isLeadingSurrogate c.toNat = false := by
  have hvalid : c.toNat < 0xD800 ∨ 0xDFFF < c.toNat ∧ c.toNat < 0x110000 := c.valid
  simp only [isTrailingSurrogate, isLeadingSurrogate, Bool.and_eq_false_iff,
    decide_eq_false_iff_not]
  omega

theorem readUnit_append {c : Char} {run : List Char} (h : SpellsUnit c.toNat run)
    (rest : List Char) : readUnit (run ++ rest) = .ok (c, rest) := by
  obtain ⟨htrailing, hleading⟩ := not_isSurrogate c
  simp [readUnit, readHex_append h, htrailing, hleading, Char.ofNat_toNat]

theorem readUnit_surrogates {c : Char} {leading trailing : Nat} {first second : List Char}
    (hleading : isLeadingSurrogate leading) (htrailing : isTrailingSurrogate trailing)
    (hfirst : SpellsUnit leading first) (hsecond : SpellsUnit trailing second)
    (h : c.toNat = (leading - 0xD800) * 0x400 + (trailing - 0xDC00) + 0x10000)
    (rest : List Char) :
    readUnit (first ++ '\\' :: 'u' :: (second ++ rest)) = .ok (c, rest) := by
  have hnot : isTrailingSurrogate leading = false := by
    simp only [isLeadingSurrogate, isTrailingSurrogate, Bool.and_eq_true, decide_eq_true_eq,
      Bool.and_eq_false_iff, decide_eq_false_iff_not] at hleading ⊢
    omega
  simp [readUnit, readTrailingSurrogate, readHex_append hfirst, readHex_append hsecond, hnot,
    hleading, htrailing, ← h, Char.ofNat_toNat]

theorem ne_u_of_escape? {mark c : Char} (h : escape? mark = some c) : mark ≠ 'u' := by
  rintro rfl
  simp [escape?] at h

theorem readEscape_letter {mark c : Char} (h : escape? mark = some c) (rest : List Char) :
    readEscape (mark :: rest) = .ok (c, rest) := by
  simp [readEscape, ne_u_of_escape? h, h]

theorem skipEscape_letter {mark c : Char} (h : escape? mark = some c) (rest : List Char) :
    skipEscape (mark :: rest) = .ok rest := by
  simp [skipEscape, ne_u_of_escape? h, h]

theorem skipEscape_unit {unit : Nat} {run : List Char} (h : SpellsUnit unit run)
    (rest : List Char) : skipEscape ('u' :: (run ++ rest)) = .ok rest := by
  simp [skipEscape, readHex_append h, Except.map]

theorem SpellsChar.ne_nil {c : Char} {written : List Char} (h : SpellsChar c written) :
    written ≠ [] := by
  cases h <;> simp

theorem SpellsChars.length_le {chars written : List Char} (h : SpellsChars chars written) :
    chars.length ≤ written.length := by
  induction h with
  | nil => exact Nat.le_refl 0
  | cons hfirst _ ih =>
    have := List.length_pos_iff.mpr hfirst.ne_nil
    rw [List.length_cons, List.length_append]
    omega

theorem readCharsFrom_append {chars written : List Char} (h : SpellsChars chars written)
    (rest : List Char) {steps : Nat} (hsteps : chars.length < steps) :
    readCharsFrom steps (written ++ '"' :: rest) = .ok (chars, rest) := by
  induction h generalizing steps with
  | nil =>
    obtain ⟨steps, rfl⟩ := Nat.exists_eq_succ_of_ne_zero (Nat.ne_zero_of_lt hsteps)
    simp [readCharsFrom]
  | @cons c chars first more hfirst _ ih =>
    obtain ⟨steps, rfl⟩ := Nat.exists_eq_succ_of_ne_zero (Nat.ne_zero_of_lt hsteps)
    have hmore := ih (Nat.lt_of_succ_lt_succ hsteps)
    cases hfirst with
    | plain hquote hbackslash hcontrol =>
      simp [readCharsFrom, hquote, hbackslash, hcontrol, hmore]
    | letter h => simp [readCharsFrom, readEscape_letter h, hmore]
    | unit h => simp [readCharsFrom, readEscape, readUnit_append h, hmore]
    | surrogates hleading htrailing hfirst hsecond h =>
      simp [readCharsFrom, readEscape, readUnit_surrogates hleading htrailing hfirst hsecond h,
        hmore]

/-- The two halves of a pair of surrogates are skipped one after the other, each in one step. -/
theorem skipCharsFrom_append {chars written : List Char} (h : SpellsChars chars written)
    (rest : List Char) {steps : Nat} (hsteps : written.length < steps) :
    skipCharsFrom steps (written ++ '"' :: rest) = .ok rest := by
  induction h generalizing steps with
  | nil =>
    obtain ⟨steps, rfl⟩ := Nat.exists_eq_succ_of_ne_zero (Nat.ne_zero_of_lt hsteps)
    simp [skipCharsFrom]
  | @cons c chars first more hfirst _ ih =>
    obtain ⟨steps, rfl⟩ := Nat.exists_eq_succ_of_ne_zero (Nat.ne_zero_of_lt hsteps)
    have hpos := List.length_pos_iff.mpr hfirst.ne_nil
    rw [List.length_append] at hsteps
    have hmore := @ih steps (by omega)
    cases hfirst with
    | plain hquote hbackslash hcontrol =>
      simp [skipCharsFrom, hquote, hbackslash, hcontrol, hmore]
    | letter h => simp [skipCharsFrom, skipEscape_letter h, hmore]
    | unit h => simp [skipCharsFrom, skipEscape_unit h, hmore]
    | surrogates hleading htrailing hfirst hsecond h =>
      obtain ⟨steps, rfl⟩ : ∃ fewer, steps = fewer + 1 := ⟨steps - 1, by simp at hsteps; omega⟩
      have hmore := @ih steps (by simp at hsteps; omega)
      simp [skipCharsFrom, skipEscape_unit hfirst, skipEscape_unit hsecond, hmore]

theorem readString_append {text : String} {body : List Char}
    (h : SpellsChars text.toList body) (rest : List Char) :
    readString (body ++ '"' :: rest) = .ok (text, rest) := by
  have hsteps : text.toList.length < (body ++ '"' :: rest).length := by
    have hle := h.length_le
    rw [List.length_append, List.length_cons]
    omega
  simp only [readString, readCharsFrom_append h rest hsteps, String.ofList_toList]

theorem skipString_append {text : String} {body : List Char}
    (h : SpellsChars text.toList body) (rest : List Char) :
    skipString (body ++ '"' :: rest) = .ok rest := by
  have hsteps : body.length < (body ++ '"' :: rest).length := by
    rw [List.length_append, List.length_cons]
    omega
  rw [skipString, skipCharsFrom_append h rest hsteps]

end ScriptSense.Json
