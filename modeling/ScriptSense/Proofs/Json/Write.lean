import ScriptSense.Proofs.Json.Numeral
import ScriptSense.Proofs.Json.Sequence

/-!
# What is written is a spelling

The written form of a value is one of its spellings, as long as its numbers are natural numbers that
64 bits hold.
-/

namespace ScriptSense.Json

theorem hexValue?_digitChar {n : Nat} (h : n < 16) : hexValue? (Nat.digitChar n) = some n := by
  have hall : ∀ n < 16, hexValue? (Nat.digitChar n) = some n := by decide
  exact hall n h

/-- A control character fits in the last two of the four digits of its escape. -/
theorem spellsUnit_control {n : Nat} (h : n < 0x20) :
    SpellsUnit n ['0', '0', Nat.digitChar (n / 16), Nat.digitChar (n % 16)] := by
  have hunit := SpellsUnit.digits (a := '0') (b := '0') rfl rfl
    (hexValue?_digitChar (n := n / 16) (by omega)) (hexValue?_digitChar (n := n % 16) (by omega))
  have hsum : ((digitValue '0' * 16 + digitValue '0') * 16 + n / 16) * 16 + n % 16 = n := by
    simp only [digitValue, Nat.sub_self]
    omega
  rwa [hsum] at hunit

theorem spellsChar_writeChar (c : Char) : SpellsChar c (writeChar c) := by
  unfold writeChar
  split
  iterate 7 exact .letter rfl
  rename_i hquote hbackslash _ _ _ _ _
  split
  · rename_i hcontrol
    exact .unit (spellsUnit_control hcontrol)
  · rename_i hcontrol
    exact .plain hquote hbackslash (by simpa [isControl] using hcontrol)

theorem spellsChars_flatMap (chars : List Char) : SpellsChars chars (chars.flatMap writeChar) := by
  induction chars with
  | nil => exact .nil
  | cons c chars ih => exact .cons (spellsChar_writeChar c) ih

theorem spellsString_writeString (text : String) : SpellsString text (writeString text) :=
  ⟨_, spellsChars_flatMap text.toList, rfl⟩

theorem head?_toDigits_ne {n : Nat} (h : 0 < n) : (Nat.toDigits 10 n).head? ≠ some '0' := by
  induction n using Nat.strong_induction_on with
  | _ n ih =>
    rw [Nat.toDigits_eq_if (by decide)]
    split
    · simpa using Nat.ne_of_gt h
    · have hdiv := ih (n / 10) (by omega) (by omega)
      rwa [List.head?_append_of_ne_nil _ Nat.toDigits_ne_nil]

/-- The numeral of a natural number. -/
def numeralOf (n : Nat) : Numeral where
  negative := false
  whole := Nat.toDigits 10 n
  fraction := none
  exponent := none
  whole_isDigits :=
    ⟨Nat.toDigits_ne_nil, fun _ ↦ Nat.isDigit_of_mem_toDigits (by decide) (by decide)⟩
  leadingZero h := by
    rcases Nat.eq_zero_or_pos n with rfl | hpos
    · rfl
    · exact absurd h (head?_toDigits_ne hpos)
  fraction_isDigits := by simp

theorem number_numeralOf {n : Nat} (h : n ≤ maxDigits) : (numeralOf n).number = .integer n := by
  have hvalue : Nat.ofDigitChars 10 (numeralOf n).whole 0 = n := Nat.ofDigitChars_ten_toDigits
  calc
    (numeralOf n).number = .integer (Nat.ofDigitChars 10 (numeralOf n).whole 0) :=
      Numeral.number_eq_integer rfl rfl rfl (hvalue.trans_le h)
    _ = .integer n := by rw [hvalue]

theorem text_numeralOf (n : Nat) : (numeralOf n).text = (Number.integer n).text.toList := by
  have hrepr : (n : Int).repr = n.repr := rfl
  simp [Numeral.text, Numeral.fractionText, Numeral.scaleText, numeralOf, Number.text, hrepr]

mutual

/-- All numbers of the value are natural numbers that 64 bits hold. -/
def Plain : Json → Prop
  | .number value => ∃ n : Nat, n ≤ maxDigits ∧ value = .integer n
  | .array items => PlainItems items
  | .object members => PlainMembers members
  | _ => True

def PlainItems : List Json → Prop
  | [] => True
  | item :: rest => Plain item ∧ PlainItems rest

def PlainMembers : List (String × Json) → Prop
  | [] => True
  | (_, value) :: rest => Plain value ∧ PlainMembers rest

end

theorem isGap_nil : IsGap true [] :=
  isGap_of_isSpace isSpace_nil

theorem isColon_colon : IsColon [':'] :=
  ⟨[], [], isSpace_nil, isSpace_nil, rfl⟩

theorem IsGap.comma {gap : List Char} (h : IsGap true gap) : IsGap false (',' :: gap) :=
  isGap_comma isSpace_nil h.isSpace

/-- Items that are written one after the other stay so after an earlier item. -/
theorem SpellsItems.comma {items : List Json} {written : List Char} (hne : items ≠ [])
    (h : SpellsItems true items written) : SpellsItems false items (',' :: written) := by
  cases items with
  | nil => exact absurd rfl hne
  | cons item rest =>
    rw [SpellsItems] at h ⊢
    obtain ⟨gap, here, after, hgap, hhere, hafter, rfl⟩ := h
    exact ⟨_, here, after, hgap.comma, hhere, hafter, by simp⟩

theorem SpellsMembers.comma {members : List (String × Json)} {written : List Char}
    (hne : members ≠ []) (h : SpellsMembers true members written) :
    SpellsMembers false members (',' :: written) := by
  cases members with
  | nil => exact absurd rfl hne
  | cons member rest =>
    rw [SpellsMembers] at h ⊢
    obtain ⟨gap, name, colon, here, after, hgap, hname, hcolon, hhere, hafter, rfl⟩ := h
    exact ⟨_, name, colon, here, after, hgap.comma, hname, hcolon, hhere, hafter, by simp⟩

mutual

theorem spells_write : ∀ {value : Json}, value.Plain → Spells value (write value)
  | .null, _ => rfl
  | .bool _, _ => rfl
  | .number _, h => by
    rw [Plain] at h
    obtain ⟨n, hn, rfl⟩ := h
    exact ⟨numeralOf n, number_numeralOf hn, (text_numeralOf n).symm⟩
  | .string text, _ => spellsString_writeString text
  | .array _, h => by
    rw [Plain] at h
    exact ⟨_, spellsItems_writeItems h, rfl⟩
  | .object _, h => by
    rw [Plain] at h
    exact ⟨_, spellsMembers_writeMembers h, rfl⟩

theorem spellsItems_writeItems : ∀ {items : List Json}, PlainItems items →
    SpellsItems true items (writeItems items)
  | [], _ => isSpace_nil
  | [item], h => by
    rw [PlainItems] at h
    have hhere := spells_write h.1
    exact ⟨[], write item, [], isGap_nil, hhere, isSpace_nil, by simp [writeItems]⟩
  | item :: other :: rest, h => by
    rw [PlainItems] at h
    have hhere := spells_write h.1
    have hafter := (spellsItems_writeItems h.2).comma (by simp)
    exact ⟨[], write item, _, isGap_nil, hhere, hafter, by simp [writeItems]⟩

theorem spellsMembers_writeMembers : ∀ {members : List (String × Json)}, PlainMembers members →
    SpellsMembers true members (writeMembers members)
  | [], _ => isSpace_nil
  | [(key, value)], h => by
    rw [PlainMembers] at h
    have hname := spellsString_writeString key
    have hhere := spells_write h.1
    exact ⟨[], writeString key, [':'], write value, [], isGap_nil, hname, isColon_colon, hhere,
      isSpace_nil, by simp [writeMembers]⟩
  | (key, value) :: other :: rest, h => by
    rw [PlainMembers] at h
    have hname := spellsString_writeString key
    have hhere := spells_write h.1
    have hafter := (spellsMembers_writeMembers h.2).comma (by simp)
    exact ⟨[], writeString key, [':'], write value, _, isGap_nil, hname, isColon_colon, hhere,
      hafter, by simp [writeMembers]⟩

end

theorem isSpace_newLine (level : Nat) : IsSpace (newLine level) := by
  intro c hc
  rcases List.mem_cons.mp hc with rfl | hc
  · rfl
  · rw [List.eq_of_mem_replicate hc]
    rfl

theorem isGap_newLine (level : Nat) : IsGap true (newLine level) :=
  isGap_of_isSpace (isSpace_newLine level)

theorem isColon_colonSpace : IsColon [':', ' '] :=
  ⟨[], [' '], isSpace_nil, by simp [IsSpace, isSpace], rfl⟩

mutual

theorem spells_writeLines (level : Nat) :
    ∀ {value : Json}, value.Plain → Spells value (writeLines level value)
  | .null, h => spells_write h
  | .bool _, h => spells_write h
  | .number _, h => spells_write h
  | .string _, h => spells_write h
  | .array [], _ => ⟨[], isSpace_nil, rfl⟩
  | .object [], _ => ⟨[], isSpace_nil, rfl⟩
  | .array (item :: rest), h => by
    rw [Plain] at h
    exact ⟨_, spellsItems_writeItemLines (level + 1) h (isSpace_newLine level), rfl⟩
  | .object (member :: rest), h => by
    rw [Plain] at h
    exact ⟨_, spellsMembers_writeMemberLines (level + 1) h (isSpace_newLine level), rfl⟩

theorem spellsItems_writeItemLines (level : Nat) :
    ∀ {items : List Json} {close : List Char}, PlainItems items → IsSpace close →
      SpellsItems true items (writeItemLines level items ++ close)
  | [], _, _, hclose => hclose
  | [item], close, h, hclose => by
    rw [PlainItems] at h
    have hhere := spells_writeLines level h.1
    exact ⟨newLine level, _, close, isGap_newLine level, hhere, hclose, by simp [writeItemLines]⟩
  | item :: other :: rest, close, h, hclose => by
    rw [PlainItems] at h
    have hhere := spells_writeLines level h.1
    have hafter := (spellsItems_writeItemLines level h.2 hclose).comma (by simp)
    exact ⟨newLine level, _, _, isGap_newLine level, hhere, hafter, by simp [writeItemLines]⟩

theorem spellsMembers_writeMemberLines (level : Nat) :
    ∀ {members : List (String × Json)} {close : List Char}, PlainMembers members → IsSpace close →
      SpellsMembers true members (writeMemberLines level members ++ close)
  | [], _, _, hclose => hclose
  | [(key, value)], close, h, hclose => by
    rw [PlainMembers] at h
    have hname := spellsString_writeString key
    have hhere := spells_writeLines level h.1
    exact ⟨newLine level, _, [':', ' '], _, close, isGap_newLine level, hname, isColon_colonSpace,
      hhere, hclose, by simp [writeMemberLines]⟩
  | (key, value) :: other :: rest, close, h, hclose => by
    rw [PlainMembers] at h
    have hname := spellsString_writeString key
    have hhere := spells_writeLines level h.1
    have hafter := (spellsMembers_writeMemberLines level h.2 hclose).comma (by simp)
    exact ⟨newLine level, _, [':', ' '], _, _, isGap_newLine level, hname, isColon_colonSpace,
      hhere, hafter, by simp [writeMemberLines]⟩

end

/-- A value is spelled by its written forms. -/
theorem spellsText_compact {value : Json} (h : value.Plain) : SpellsText value value.compact :=
  ⟨[], write value, [], isSpace_nil, spells_write h, isSpace_nil, by simp [compact]⟩

theorem spellsText_pretty {value : Json} (h : value.Plain) : SpellsText value value.pretty :=
  ⟨[], writeLines 0 value, [], isSpace_nil, spells_writeLines 0 h, isSpace_nil, by simp [pretty]⟩

end ScriptSense.Json
