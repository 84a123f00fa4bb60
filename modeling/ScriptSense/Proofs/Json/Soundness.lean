import ScriptSense.Proofs.Json.Read

/-!
# What is read is spelled

A reader that succeeds has taken a spelling off the start of its input. The grammar therefore leaves
out no text that is parsed, and a text is parsed to the canonical form of what it spells.
-/

namespace ScriptSense.Json

/-! ## Numbers -/

section Numbers

variable {negative : Bool} {digits : Nat} {power : Int} {input rest : List Char} {value : Number}

theorem rest_of_floating (h : floating negative digits power input = .ok (value, rest)) :
    input = rest := by
  unfold floating at h
  split at h
  · cases h
  · exact (Prod.mk.inj (Except.ok.inj h)).2

/-- A run of digits off the start of an input that starts with one. -/
theorem cut_digits {c : Char} (h : c.isDigit) (more : List Char) :
    IsDigits ((c :: more).takeWhile Char.isDigit) ∧
      c :: more = (c :: more).takeWhile Char.isDigit ++ (c :: more).dropWhile Char.isDigit := by
  refine ⟨⟨by simp [h], fun d hd ↦ List.mem_takeWhile_imp hd⟩, ?_⟩
  exact List.takeWhile_append_dropWhile.symm

/-- After its mark, an exponent has perhaps a sign, and then digits. -/
theorem cut_readExponent (h : readExponent negative digits power input = .ok (value, rest)) :
    ∃ (sign : Option Char) (run : List Char), (∀ c ∈ sign, c = '+' ∨ c = '-') ∧ IsDigits run ∧
      input = sign.toList ++ run ++ rest := by
  unfold readExponent at h
  split at h
  rename_i down after hsign
  have hafter : ∃ run, IsDigits run ∧ after = run ++ rest := by
    cases after with
    | nil => cases h
    | cons c more =>
      simp only at h
      split at h
      · rename_i hc
        obtain ⟨hrun, hcut⟩ := cut_digits hc more
        refine ⟨_, hrun, ?_⟩
        split at h
        · split at h
          · cases h
          · rw [← (Prod.mk.inj (Except.ok.inj h)).2]
            exact hcut
        · rw [← rest_of_floating h]
          exact hcut
      · cases h
  obtain ⟨run, hrun, rfl⟩ := hafter
  split at hsign
  · obtain ⟨-, rfl⟩ := Prod.mk.inj hsign
    exact ⟨some '+', run, by simp, hrun, rfl⟩
  · obtain ⟨-, rfl⟩ := Prod.mk.inj hsign
    exact ⟨some '-', run, by simp, hrun, rfl⟩
  · obtain ⟨-, rfl⟩ := Prod.mk.inj hsign
    exact ⟨none, run, by simp, hrun, rfl⟩

theorem exists_exponent {mark : Char} (hmark : mark = 'e' ∨ mark = 'E')
    (h : readExponent negative digits power input = .ok (value, rest)) :
    ∃ exponent : Exponent, mark :: input = exponent.text ++ rest := by
  obtain ⟨sign, run, hsign, hrun, rfl⟩ := cut_readExponent h
  exact ⟨⟨mark, sign, run, hmark, hsign, hrun⟩, by simp [Exponent.text]⟩

theorem exists_scale (h : readScale negative digits power input = .ok (value, rest)) :
    ∃ exponent : Option Exponent, input = exponent.elim [] Exponent.text ++ rest := by
  unfold readScale at h
  split at h
  · obtain ⟨exponent, hexponent⟩ := exists_exponent (.inl rfl) h
    exact ⟨some exponent, hexponent⟩
  · obtain ⟨exponent, hexponent⟩ := exists_exponent (.inr rfl) h
    exact ⟨some exponent, hexponent⟩
  · exact ⟨none, rest_of_floating h⟩

theorem exists_fraction (h : readFraction negative digits power input = .ok (value, rest)) :
    ∃ (run : List Char) (exponent : Option Exponent), IsDigits run ∧
      input = run ++ (exponent.elim [] Exponent.text ++ rest) := by
  unfold readFraction at h
  split at h
  · split at h <;> cases h
  · rename_i hne
    obtain ⟨exponent, hexponent⟩ := exists_scale h
    refine ⟨input.takeWhile Char.isDigit, exponent, ⟨hne, fun d hd ↦ List.mem_takeWhile_imp hd⟩, ?_⟩
    rw [← hexponent]
    exact List.takeWhile_append_dropWhile.symm

/-- What follows the digits before the point: perhaps a fraction, and perhaps an exponent. -/
theorem exists_afterWhole {dropped : Nat}
    (h : readAfterWhole negative digits dropped input = .ok (value, rest)) :
    ∃ (fraction : Option (List Char)) (exponent : Option Exponent),
      (∀ run ∈ fraction, IsDigits run) ∧
        input = fraction.elim [] ('.' :: ·) ++ (exponent.elim [] Exponent.text ++ rest) := by
  unfold readAfterWhole at h
  split at h
  · obtain ⟨run, exponent, hrun, rfl⟩ := exists_fraction h
    exact ⟨some run, exponent, by simpa using hrun, rfl⟩
  · obtain ⟨exponent, hexponent⟩ := exists_exponent (.inl rfl) h
    exact ⟨none, some exponent, by simp, hexponent⟩
  · obtain ⟨exponent, hexponent⟩ := exists_exponent (.inr rfl) h
    exact ⟨none, some exponent, by simp, hexponent⟩
  · split at h
    · exact ⟨none, none, by simp, (Prod.mk.inj (Except.ok.inj h)).2⟩
    · exact ⟨none, none, by simp, rest_of_floating h⟩

theorem exists_magnitude (h : readMagnitude negative input = .ok (value, rest)) :
    ∃ numeral : Numeral, numeral.negative = negative ∧
      input = numeral.whole ++ (numeral.fractionText ++ (numeral.scaleText ++ rest)) := by
  unfold readMagnitude at h
  split at h
  · cases h
  · split at h
    · cases h
    · obtain ⟨fraction, exponent, hfraction, rfl⟩ := exists_afterWhole h
      have hzero : IsDigits ['0'] := ⟨by simp, by simp⟩
      exact ⟨⟨negative, ['0'], fraction, exponent, hzero, by simp, hfraction⟩, rfl, rfl⟩
  · rename_i c more hzero
    split at h
    · rename_i hc
      obtain ⟨hrun, hcut⟩ := cut_digits hc more
      obtain ⟨fraction, exponent, hfraction, hafter⟩ := exists_afterWhole h
      have hleading (hhead : ((c :: more).takeWhile Char.isDigit).head? = some '0') :
          (c :: more).takeWhile Char.isDigit = ['0'] := by
        have hstart : c = '0' := by simpa [hc] using hhead
        exact (hzero hstart).elim
      rw [hafter] at hcut
      exact ⟨⟨negative, _, fraction, exponent, hrun, hleading, hfraction⟩, rfl, hcut⟩
    · cases h

theorem exists_numeral (h : readNumber input = .ok (value, rest)) :
    ∃ numeral : Numeral, input = numeral.text ++ rest := by
  unfold readNumber at h
  split at h
  · obtain ⟨numeral, hnegative, rfl⟩ := exists_magnitude h
    exact ⟨numeral, by simp [Numeral.text, hnegative]⟩
  · obtain ⟨numeral, hnegative, rfl⟩ := exists_magnitude h
    exact ⟨numeral, by simp [Numeral.text, hnegative]⟩

end Numbers

/-! ## Strings -/

section Strings

variable {input rest : List Char}

theorem hexValue?_lt {c : Char} {value : Nat} (h : hexValue? c = some value) : value < 16 := by
  unfold hexValue? digitValue at h
  split at h
  · rename_i hc
    have hbounds : 48 ≤ c.toNat ∧ c.toNat ≤ 57 := Char.isDigit_iff_toNat.mp hc
    have hvalue : c.toNat - 48 = value := Option.some.inj h
    omega
  · split at h
    · rename_i hc
      have hbounds : 97 ≤ c.toNat ∧ c.toNat ≤ 102 := hc
      have hvalue : c.toNat - 97 + 10 = value := Option.some.inj h
      omega
    · split at h
      · rename_i hc
        have hbounds : 65 ≤ c.toNat ∧ c.toNat ≤ 70 := hc
        have hvalue : c.toNat - 65 + 10 = value := Option.some.inj h
        omega
      · cases h

theorem exists_unit {unit : Nat} (h : readHex input = .ok (unit, rest)) :
    unit < 0x10000 ∧ ∃ run, SpellsUnit unit run ∧ input = run ++ rest := by
  unfold readHex at h
  split at h
  · cases h
  · split at h
    · split at h
      · rename_i ha hb hc hd
        obtain ⟨rfl, rfl⟩ := Prod.mk.inj (Except.ok.inj h)
        have := hexValue?_lt ha
        have := hexValue?_lt hb
        have := hexValue?_lt hc
        have := hexValue?_lt hd
        exact ⟨by omega, _, .digits ha hb hc hd, rfl⟩
      · cases h
    · cases h

theorem toNat_ofNat {n : Nat} (h : n.isValidChar) : (Char.ofNat n).toNat = n := by
  rw [Char.ofNat, dif_pos h]
  rfl

/-- The numbers that two surrogates join to are those of characters. -/
theorem toNat_joined {leading trailing : Nat} (hleading : isLeadingSurrogate leading)
    (htrailing : isTrailingSurrogate trailing) :
    (Char.ofNat ((leading - 0xD800) * 0x400 + (trailing - 0xDC00) + 0x10000)).toNat =
      (leading - 0xD800) * 0x400 + (trailing - 0xDC00) + 0x10000 := by
  simp only [isLeadingSurrogate, isTrailingSurrogate, Bool.and_eq_true, decide_eq_true_eq] at *
  apply toNat_ofNat
  right
  omega

theorem toNat_single {unit : Nat} (hlt : unit < 0x10000) (hleading : ¬isLeadingSurrogate unit)
    (htrailing : ¬isTrailingSurrogate unit) : (Char.ofNat unit).toNat = unit := by
  simp only [isLeadingSurrogate, isTrailingSurrogate, Bool.and_eq_true, decide_eq_true_eq] at *
  apply toNat_ofNat
  simp only [Nat.isValidChar]
  omega

theorem exists_surrogates {leading : Nat} {first : List Char} {c : Char}
    (hleading : isLeadingSurrogate leading) (hfirst : SpellsUnit leading first)
    (h : readTrailingSurrogate leading input = .ok (c, rest)) :
    ∃ run, SpellsChar c ('\\' :: 'u' :: (first ++ run)) ∧ input = run ++ rest := by
  unfold readTrailingSurrogate at h
  split at h
  · cases h
  · cases h
  · split at h
    · cases h
    · rename_i trailing after hread
      split at h
      · rename_i htrailing
        obtain ⟨rfl, rfl⟩ := Prod.mk.inj (Except.ok.inj h)
        obtain ⟨-, second, hsecond, rfl⟩ := exists_unit hread
        have hjoined := toNat_joined hleading htrailing
        exact ⟨_, .surrogates hleading htrailing hfirst hsecond hjoined, rfl⟩
      · cases h
  · cases h
  · cases h

theorem exists_unitChar {c : Char} (h : readUnit input = .ok (c, rest)) :
    ∃ run, SpellsChar c ('\\' :: 'u' :: run) ∧ input = run ++ rest := by
  unfold readUnit at h
  split at h
  · cases h
  · rename_i unit after hread
    obtain ⟨hlt, first, hfirst, rfl⟩ := exists_unit hread
    split at h
    · cases h
    · rename_i htrailing
      split at h
      · rename_i hleading
        obtain ⟨run, hrun, rfl⟩ := exists_surrogates hleading hfirst h
        exact ⟨first ++ run, hrun, by simp⟩
      · rename_i hleading
        obtain ⟨rfl, rfl⟩ := Prod.mk.inj (Except.ok.inj h)
        have hunit := toNat_single hlt hleading htrailing
        exact ⟨first, .unit (by rwa [hunit]), rfl⟩

theorem exists_escape {c : Char} (h : readEscape input = .ok (c, rest)) :
    ∃ run, SpellsChar c ('\\' :: run) ∧ input = run ++ rest := by
  unfold readEscape at h
  split at h
  · cases h
  · obtain ⟨run, hrun, rfl⟩ := exists_unitChar h
    exact ⟨'u' :: run, hrun, rfl⟩
  · rename_i mark after _
    split at h
    · rename_i d hescape
      obtain ⟨rfl, rfl⟩ := Prod.mk.inj (Except.ok.inj h)
      exact ⟨[mark], .letter hescape, rfl⟩
    · cases h

theorem exists_chars {steps : Nat} {chars : List Char}
    (h : readCharsFrom steps input = .ok (chars, rest)) :
    ∃ body, SpellsChars chars body ∧ input = body ++ '"' :: rest := by
  induction steps generalizing input chars with
  | zero => cases h
  | succ steps ih =>
    cases input with
    | nil => cases h
    | cons c more =>
      rw [readCharsFrom] at h
      split at h
      · rename_i hquote
        obtain ⟨rfl, rfl⟩ := Prod.mk.inj (Except.ok.inj h)
        exact ⟨[], .nil, by rw [hquote]; rfl⟩
      · rename_i hquote
        split at h
        · rename_i hbackslash
          split at h
          · cases h
          · rename_i d after hescape
            split at h
            · cases h
            · rename_i others last hothers
              obtain ⟨rfl, rfl⟩ := Prod.mk.inj (Except.ok.inj h)
              obtain ⟨run, hrun, rfl⟩ := exists_escape hescape
              obtain ⟨body, hbody, rfl⟩ := ih hothers
              exact ⟨_, .cons hrun hbody, by simp [hbackslash]⟩
        · rename_i hbackslash
          split at h
          · cases h
          · rename_i hcontrol
            split at h
            · cases h
            · rename_i others last hothers
              obtain ⟨rfl, rfl⟩ := Prod.mk.inj (Except.ok.inj h)
              obtain ⟨body, hbody, rfl⟩ := ih hothers
              exact ⟨_, .cons (.plain hquote hbackslash hcontrol) hbody, rfl⟩

theorem exists_string {text : String} (h : readString input = .ok (text, rest)) :
    ∃ body, SpellsChars text.toList body ∧ input = body ++ '"' :: rest := by
  unfold readString at h
  split at h
  · cases h
  · rename_i chars after hchars
    obtain ⟨rfl, rfl⟩ := Prod.mk.inj (Except.ok.inj h)
    rw [String.toList_ofList]
    exact exists_chars hchars

end Strings

/-! ## Punctuation -/

section Punctuation

variable {first : Bool} {input after : List Char}

theorem eq_of_readLiteral {name rest : List Char} (h : readLiteral name input = .ok rest) :
    input = name ++ rest := by
  induction name generalizing input with
  | nil => exact Except.ok.inj h
  | cons c name ih =>
    cases input with
    | nil => cases h
    | cons d more =>
      rw [readLiteral] at h
      split at h
      · rename_i heq
        rw [heq, ih h, List.cons_append]
      · cases h

theorem exists_space {rest : List Char} (h : skipSpace input = rest) :
    ∃ gap, IsSpace gap ∧ input = gap ++ rest := by
  refine ⟨input.takeWhile isSpace, fun c hc ↦ List.mem_takeWhile_imp hc, ?_⟩
  rw [← h]
  exact List.takeWhile_append_dropWhile.symm

theorem IsGap.append {gap space : List Char} (h : IsGap first gap) (hspace : IsSpace space) :
    IsGap first (gap ++ space) := by
  obtain ⟨before, after, hbefore, hafter, rfl⟩ := h
  exact ⟨before, after ++ space, hbefore, hafter.append hspace, by simp⟩

/-- Before the closing bracket there is only space. -/
theorem exists_closing_of_nextElement (h : nextElement first input = .ok (false, after)) :
    ∃ gap rest, IsSpace gap ∧ after = ']' :: rest ∧ input = gap ++ after := by
  unfold nextElement at h
  split at h
  · cases h
  · rename_i c rest hskip
    obtain ⟨gap, hgap, rfl⟩ := exists_space hskip
    split at h
    · rename_i hc
      rw [← (Prod.mk.inj (Except.ok.inj h)).2, hc]
      exact ⟨gap, rest, hgap, rfl, rfl⟩
    · split at h
      · cases h
      · split at h
        · split at h
          · cases h
          · split at h <;> cases h
        · cases h

theorem exists_gap_of_nextElement (h : nextElement first input = .ok (true, after)) :
    ∃ gap, IsGap first gap ∧ input = gap ++ after := by
  unfold nextElement at h
  split at h
  · cases h
  · rename_i c rest hskip
    obtain ⟨gap, hgap, rfl⟩ := exists_space hskip
    split at h
    · cases h
    · split at h
      · rename_i hfirst
        rw [← (Prod.mk.inj (Except.ok.inj h)).2, hfirst]
        exact ⟨gap, isGap_of_isSpace hgap, rfl⟩
      · rename_i hfirst
        rw [Bool.not_eq_true] at hfirst
        split at h
        · rename_i hcomma
          split at h
          · cases h
          · rename_i d more hmore
            obtain ⟨space, hspace, rfl⟩ := exists_space hmore
            split at h
            · cases h
            · rw [← (Prod.mk.inj (Except.ok.inj h)).2, hfirst, hcomma]
              exact ⟨_, isGap_comma hgap hspace, by simp⟩
        · cases h

theorem exists_closing_of_nextKey (h : nextKey first input = .ok (false, after)) :
    ∃ gap rest, IsSpace gap ∧ after = '\x7d' :: rest ∧ input = gap ++ after := by
  unfold nextKey at h
  split at h
  · cases h
  · rename_i c rest hskip
    obtain ⟨gap, hgap, rfl⟩ := exists_space hskip
    split at h
    · rename_i hc
      rw [← (Prod.mk.inj (Except.ok.inj h)).2, hc]
      exact ⟨gap, rest, hgap, rfl, rfl⟩
    · split at h
      · split at h <;> cases h
      · split at h
        · split at h
          · cases h
          · split at h
            · cases h
            · split at h <;> cases h
        · cases h

theorem exists_gap_of_nextKey (h : nextKey first input = .ok (true, after)) :
    ∃ gap rest, IsGap first gap ∧ after = '"' :: rest ∧ input = gap ++ after := by
  unfold nextKey at h
  split at h
  · cases h
  · rename_i c rest hskip
    obtain ⟨gap, hgap, rfl⟩ := exists_space hskip
    split at h
    · cases h
    · split at h
      · rename_i hfirst
        split at h
        · rename_i hquote
          rw [← (Prod.mk.inj (Except.ok.inj h)).2, hfirst, hquote]
          exact ⟨gap, rest, isGap_of_isSpace hgap, rfl, rfl⟩
        · cases h
      · rename_i hfirst
        rw [Bool.not_eq_true] at hfirst
        split at h
        · rename_i hcomma
          split at h
          · cases h
          · rename_i d more hmore
            obtain ⟨space, hspace, rfl⟩ := exists_space hmore
            split at h
            · rename_i hquote
              rw [← (Prod.mk.inj (Except.ok.inj h)).2, hfirst, hcomma, hquote]
              exact ⟨_, more, isGap_comma hgap hspace, rfl, by simp⟩
            · split at h <;> cases h
        · cases h

theorem exists_space_of_readColon (h : readColon input = .ok after) :
    ∃ gap, IsSpace gap ∧ input = gap ++ ':' :: after := by
  unfold readColon at h
  split at h
  · cases h
  · rename_i c rest hskip
    obtain ⟨gap, hgap, rfl⟩ := exists_space hskip
    split at h
    · rename_i hc
      rw [hc, Except.ok.inj h]
      exact ⟨gap, hgap, rfl⟩
    · cases h

end Punctuation

/-! ## Values -/

/-- What the reader takes is a spelling, with space before it. -/
def TakesSpelling (reader : Reader Json) : Prop :=
  ∀ input found rest, reader input = .ok (found, rest) →
    ∃ value gap here, IsSpace gap ∧ Spells value here ∧ input = gap ++ (here ++ rest)

theorem exists_items {reader : Reader Json} (hreader : TakesSpelling reader) {steps : Nat}
    {first : Bool} {input rest : List Char} {found : List Json}
    (h : readElements reader steps first input = .ok (found, rest)) :
    ∃ items body, SpellsItems first items body ∧ input = body ++ ']' :: rest := by
  induction steps generalizing first input found with
  | zero => cases h
  | succ steps ih =>
    rw [readElements] at h
    split at h
    · cases h
    · rename_i after hnext
      obtain ⟨gap, more, hgap, rfl, rfl⟩ := exists_closing_of_nextElement hnext
      obtain ⟨-, rfl⟩ := Prod.mk.inj (Except.ok.inj h)
      exact ⟨[], gap, by rwa [SpellsItems], rfl⟩
    · rename_i after hnext
      obtain ⟨gap, hgap, rfl⟩ := exists_gap_of_nextElement hnext
      split at h
      · cases h
      · rename_i value last hvalue
        obtain ⟨item, space, here, hspace, hhere, rfl⟩ := hreader _ _ _ hvalue
        split at h
        · cases h
        · rename_i values remaining hvalues
          obtain ⟨-, rfl⟩ := Prod.mk.inj (Except.ok.inj h)
          obtain ⟨items, body, hbody, rfl⟩ := ih hvalues
          refine ⟨item :: items, gap ++ space ++ here ++ body, ?_, by simp⟩
          rw [SpellsItems]
          exact ⟨_, here, body, hgap.append hspace, hhere, hbody, rfl⟩

/-- After a key stand a colon and a value. -/
theorem exists_member {reader : Reader Json} (hreader : TakesSpelling reader)
    {ordered next : List (String × Json)} {key : String} {input rest : List Char}
    (h : readMember reader ordered key input = .ok (next, rest)) :
    ∃ colon value here, IsColon colon ∧ Spells value here ∧ input = colon ++ (here ++ rest) := by
  unfold readMember at h
  split at h
  · cases h
  · rename_i after hcolon
    obtain ⟨before, hbefore, rfl⟩ := exists_space_of_readColon hcolon
    split at h
    · cases h
    · rename_i found left hvalue
      obtain ⟨-, rfl⟩ := Prod.mk.inj (Except.ok.inj h)
      obtain ⟨value, space, here, hspace, hhere, rfl⟩ := hreader _ _ _ hvalue
      exact ⟨before ++ ':' :: space, value, here, ⟨before, space, hbefore, hspace, rfl⟩, hhere,
        by simp⟩

theorem exists_members {reader : Reader Json} (hreader : TakesSpelling reader) {steps : Nat}
    {first : Bool} {input rest : List Char} {ordered found : List (String × Json)}
    (h : readMembers (readMember reader) steps first ordered input = .ok (found, rest)) :
    ∃ members body, SpellsMembers first members body ∧ input = body ++ '\x7d' :: rest.tail := by
  induction steps generalizing first input ordered with
  | zero => cases h
  | succ steps ih =>
    rw [readMembers] at h
    split at h
    · cases h
    · rename_i after hnext
      obtain ⟨gap, more, hgap, rfl, rfl⟩ := exists_closing_of_nextKey hnext
      obtain ⟨-, rfl⟩ := Prod.mk.inj (Except.ok.inj h)
      exact ⟨[], gap, by rwa [SpellsMembers], rfl⟩
    · rename_i after hnext
      obtain ⟨gap, more, hgap, rfl, rfl⟩ := exists_gap_of_nextKey hnext
      rw [List.tail_cons] at h
      split at h
      · cases h
      · rename_i key last hkey
        obtain ⟨name, hname, rfl⟩ := exists_string hkey
        split at h
        · cases h
        · rename_i next remaining hmember
          obtain ⟨colon, value, here, hcolon, hhere, rfl⟩ := exists_member hreader hmember
          obtain ⟨members, body, hbody, rfl⟩ := ih h
          have hstring : SpellsString key ('"' :: name ++ ['"']) := ⟨name, hname, rfl⟩
          have hspells : SpellsMembers first ((key, value) :: members)
              (gap ++ ('"' :: name ++ ['"']) ++ colon ++ here ++ body) := by
            rw [SpellsMembers]
            exact ⟨gap, _, colon, here, body, hgap, hstring, hcolon, hhere, hbody, rfl⟩
          exact ⟨_, _, hspells, by simp⟩

theorem exists_of_map_eq_ok {ε α β : Type} {result : Except ε α} {f : α → β} {value : β}
    (h : result.map f = .ok value) : ∃ found, result = .ok found ∧ f found = value := by
  cases result with
  | error failure => cases h
  | ok found => exact ⟨found, rfl, Except.ok.inj h⟩

theorem takesSpelling_readValueFrom (depth : Nat) : TakesSpelling (readValueFrom depth) := by
  induction depth with
  | zero =>
    intro input found rest h
    cases h
  | succ depth ih =>
    intro input found rest h
    rw [readValueFrom] at h
    split at h
    · cases h
    · rename_i c more hskip
      obtain ⟨gap, hgap, rfl⟩ := exists_space hskip
      -- The first character chooses the reader, and with it the clause of the grammar.
      suffices hhere : ∃ value here, Spells value here ∧ c :: more = here ++ rest by
        obtain ⟨value, here, hspells, hcut⟩ := hhere
        exact ⟨value, gap, here, hgap, hspells, by rw [hcut]⟩
      split at h
      · obtain ⟨left, hread, heq⟩ := exists_of_map_eq_ok h
        obtain ⟨-, rfl⟩ := Prod.mk.inj heq
        exact ⟨.null, _, by rw [Spells], by rw [eq_of_readLiteral hread]; rfl⟩
      · obtain ⟨left, hread, heq⟩ := exists_of_map_eq_ok h
        obtain ⟨-, rfl⟩ := Prod.mk.inj heq
        exact ⟨.bool true, _, by rw [Spells], by rw [eq_of_readLiteral hread]; rfl⟩
      · obtain ⟨left, hread, heq⟩ := exists_of_map_eq_ok h
        obtain ⟨-, rfl⟩ := Prod.mk.inj heq
        exact ⟨.bool false, _, by rw [Spells], by rw [eq_of_readLiteral hread]; rfl⟩
      · obtain ⟨⟨text, left⟩, hread, heq⟩ := exists_of_map_eq_ok h
        obtain ⟨-, rfl⟩ := Prod.mk.inj heq
        obtain ⟨body, hbody, rfl⟩ := exists_string hread
        refine ⟨.string text, '"' :: body ++ ['"'], ?_, by simp⟩
        rw [Spells]
        exact ⟨body, hbody, rfl⟩
      · obtain ⟨⟨values, left⟩, hread, heq⟩ := exists_of_map_eq_ok h
        obtain ⟨-, rfl⟩ := Prod.mk.inj heq
        obtain ⟨items, body, hbody, rfl⟩ := exists_items ih hread
        refine ⟨.array items, '[' :: body ++ [']'], ?_, by simp⟩
        rw [Spells]
        exact ⟨body, hbody, rfl⟩
      · obtain ⟨⟨values, left⟩, hread, heq⟩ := exists_of_map_eq_ok h
        obtain ⟨-, rfl⟩ := Prod.mk.inj heq
        obtain ⟨members, body, hbody, rfl⟩ := exists_members ih hread
        refine ⟨.object members, '\x7b' :: body ++ ['\x7d'], ?_, by simp⟩
        rw [Spells]
        exact ⟨body, hbody, rfl⟩
      · split at h
        · obtain ⟨⟨value, left⟩, hread, heq⟩ := exists_of_map_eq_ok h
          obtain ⟨-, rfl⟩ := Prod.mk.inj heq
          obtain ⟨numeral, hnumeral⟩ := exists_numeral hread
          refine ⟨.number numeral.number, numeral.text, ?_, hnumeral⟩
          rw [Spells]
          exact ⟨numeral, rfl, rfl⟩
        · cases h

/-- A text that is parsed spells a value, of which the canonical form is parsed. -/
theorem exists_spelling_of_parse {text : String} {found : Json} (h : parse text = .ok found) :
    ∃ value, SpellsText value text ∧ found = value.canonical := by
  have hspells : ∃ value, SpellsText value text := by
    rw [parse, readAll] at h
    split at h
    · cases h
    · rename_i value rest hread
      obtain ⟨value, gap, here, hgap, hhere, htext⟩ :=
        takesSpelling_readValueFrom _ _ _ _ hread
      split at h
      · rename_i hrest
        obtain ⟨after, hafter, rfl⟩ := exists_space hrest
        rw [List.append_nil, ← List.append_assoc] at htext
        exact ⟨value, gap, here, after, hgap, hhere, hafter, htext⟩
      · cases h
  obtain ⟨value, hvalue⟩ := hspells
  exact ⟨value, hvalue, canonical_of_parse hvalue h⟩

end ScriptSense.Json
