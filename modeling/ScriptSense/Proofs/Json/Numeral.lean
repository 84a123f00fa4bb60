import ScriptSense.Proofs.Json.Grammar
import ScriptSense.Proofs.Text.Cuts

/-!
# Reading and skipping numbers

A numeral is followed by something that cannot go on with it. It is then read as the number that it
stands for, unless that is out of range, and skipped whether or not it is.

A natural number that 64 bits hold has one spelling: its decimal digits, with no zero in front, no
sign, no point and no exponent. Whatever else is written is a floating number or a negative one.
-/

namespace ScriptSense.Json

/-- A text that does not go on with a number that precedes it. -/
def Stops (rest : List Char) : Prop :=
  ∀ c ∈ rest.head?, c.isDigit = false ∧ c ≠ '.' ∧ c ≠ 'e' ∧ c ≠ 'E'

/-- What comes of reading a number: the number itself, or a failure because it is out of range,
which no integer is. -/
inductive ReadAs (number : Number) (rest : List Char) : Except Failure (Number × List Char) → Prop
  | inRange : ReadAs number rest (.ok (number, rest))
  | outOfRange {negative : Bool} {digits : Nat} {power : Int} (failure : Failure)
    (h : number = .floating negative digits power) : ReadAs number rest (.error failure)

theorem readAs_floating (negative : Bool) (digits : Nat) (power : Int) (rest : List Char) :
    ReadAs (.floating negative digits power) rest (floating negative digits power rest) := by
  unfold floating
  split
  · exact .outOfRange _ rfl
  · exact .inRange

section Digits

variable {run rest : List Char}

theorem IsDigits.takeWhile_append (h : IsDigits run)
    (hrest : ∀ c ∈ rest.head?, c.isDigit = false) : (run ++ rest).takeWhile Char.isDigit = run :=
  Text.takeWhile_append_of_head? h.isDigit hrest

theorem IsDigits.dropWhile_append (h : IsDigits run)
    (hrest : ∀ c ∈ rest.head?, c.isDigit = false) : (run ++ rest).dropWhile Char.isDigit = rest :=
  Text.dropWhile_append_of_head? h.isDigit hrest

theorem any_isDigit_head? (hrest : ∀ c ∈ rest.head?, c.isDigit = false) :
    rest.head?.any Char.isDigit = false := by
  cases hhead : rest.head? with
  | none => rfl
  | some c => exact hrest c hhead

theorem IsDigits.exists_cons (h : IsDigits run) :
    ∃ c more, run = c :: more ∧ c.isDigit ∧ ∀ d ∈ more, d.isDigit := by
  obtain ⟨c, more, rfl⟩ := List.exists_cons_of_ne_nil h.ne_nil
  exact ⟨c, more, rfl, h.isDigit c List.mem_cons_self,
    fun d hd ↦ h.isDigit d (List.mem_cons_of_mem _ hd)⟩

theorem le_ofDigitChars (digits : List Char) (value : Nat) :
    value ≤ Nat.ofDigitChars 10 digits value := by
  induction digits generalizing value with
  | nil => exact Nat.le_refl value
  | cons c digits ih =>
    rw [Nat.ofDigitChars_cons]
    exact Nat.le_trans (by omega) (ih _)

/-- Digits are absorbed to the last one when the number that they write is within the limit. -/
theorem absorb_of_le {limit value : Nat} {digits : List Char}
    (h : Nat.ofDigitChars 10 digits value ≤ limit) :
    absorb limit value digits = (Nat.ofDigitChars 10 digits value, digits.length) := by
  induction digits generalizing value with
  | nil => rfl
  | cons c digits ih =>
    rw [Nat.ofDigitChars_cons] at h ⊢
    have hnext : value * 10 + digitValue c = 10 * value + (c.toNat - '0'.toNat) := by
      rw [Nat.mul_comm, digitValue]
    have hle : ¬limit < 10 * value + (c.toNat - '0'.toNat) :=
      Nat.not_lt.mpr (Nat.le_trans (le_ofDigitChars digits _) h)
    rw [absorb, hnext, if_neg hle, ih h, List.length_cons]

/-- The digits that are absorbed to the last one write a number within the limit. -/
theorem ofDigitChars_le_of_absorb {limit value : Nat} {digits : List Char} (hvalue : value ≤ limit)
    (h : digits.length ≤ (absorb limit value digits).2) :
    Nat.ofDigitChars 10 digits value ≤ limit := by
  induction digits generalizing value with
  | nil => exact hvalue
  | cons c digits ih =>
    have hnext : value * 10 + digitValue c = 10 * value + (c.toNat - '0'.toNat) := by
      rw [Nat.mul_comm, digitValue]
    rw [Nat.ofDigitChars_cons]
    rw [absorb, hnext] at h
    split at h
    · exact absurd h (Nat.not_succ_le_zero _)
    · rename_i hle
      exact ih (Nat.not_lt.mp hle) (Nat.le_of_succ_le_succ h)

end Digits

theorem Stops.head?_isDigit {rest : List Char} (h : Stops rest) :
    ∀ c ∈ rest.head?, c.isDigit = false :=
  fun c hc ↦ (h c hc).1

section Exponent

variable {rest : List Char}

/-- After a sign, the digits of an exponent are read in the same way whichever sign it is. -/
theorem readExponent_eq (exponent : Exponent) (hrest : Stops rest) (negative : Bool) (digits : Nat)
    (power : Int) :
    readExponent negative digits power (exponent.sign.toList ++ exponent.run ++ rest) =
      let (value, kept) := absorb maxExponent 0 exponent.run
      if kept < exponent.run.length then
        if digits ≠ 0 ∧ exponent.sign ≠ some '-' then
          failAt .numberOutOfRange ((exponent.run ++ rest).drop (kept + 1))
        else .ok (.floating negative 0 0, rest)
      else
        floating negative digits
          (if exponent.sign = some '-' then power - value else power + value) rest := by
  obtain ⟨mark, sign, run, -, hsign, hrun⟩ := exponent
  have htake := hrun.takeWhile_append hrest.head?_isDigit
  have hdrop := hrun.dropWhile_append hrest.head?_isDigit
  obtain ⟨c, more, rfl, hc, -⟩ := hrun.exists_cons
  have hplus : c ≠ '+' := fun h ↦ by simp [h] at hc
  have hminus : c ≠ '-' := fun h ↦ by simp [h] at hc
  rw [List.cons_append] at htake hdrop
  cases sign with
  | none => simp [readExponent, hc, htake, hdrop, hplus, hminus]
  | some mark =>
    rcases hsign mark rfl with rfl | rfl
    · simp [readExponent, hc, htake, hdrop]
    · simp [readExponent, hc, htake, hdrop]

theorem readAs_readExponent (exponent : Exponent) (hrest : Stops rest) (negative : Bool)
    (digits : Nat) (power : Int) :
    ReadAs (exponent.scale negative digits power) rest
      (readExponent negative digits power (exponent.sign.toList ++ exponent.run ++ rest)) := by
  rw [readExponent_eq exponent hrest]
  unfold Exponent.scale
  dsimp only
  split
  · split
    · exact .outOfRange _ rfl
    · exact .inRange
  · exact readAs_floating ..

end Exponent

/-! ## Reading numerals -/

namespace Numeral

variable {rest : List Char}

theorem head?_scaleText_isDigit (numeral : Numeral) (hrest : Stops rest) :
    ∀ c ∈ (numeral.scaleText ++ rest).head?, c.isDigit = false := by
  unfold scaleText
  cases numeral.exponent with
  | none => exact hrest.head?_isDigit
  | some exponent =>
    intro c hc
    obtain rfl : exponent.mark = c := by simpa [Exponent.text] using hc
    rcases exponent.isMark with h | h <;> rw [h] <;> decide

theorem head?_fractionText_isDigit (numeral : Numeral) (hrest : Stops rest) :
    ∀ c ∈ (numeral.fractionText ++ (numeral.scaleText ++ rest)).head?, c.isDigit = false := by
  unfold fractionText
  cases numeral.fraction with
  | none => exact numeral.head?_scaleText_isDigit hrest
  | some run =>
    intro c hc
    obtain rfl : '.' = c := by simpa using hc
    decide

theorem readAs_readScale (numeral : Numeral) (hrest : Stops rest) (negative : Bool) (digits : Nat)
    (power : Int) :
    ReadAs (numeral.exponent.elim (.floating negative digits power) (·.scale negative digits power))
      rest (readScale negative digits power (numeral.scaleText ++ rest)) := by
  unfold scaleText
  cases numeral.exponent with
  | none =>
    have hplain : readScale negative digits power rest = floating negative digits power rest := by
      unfold readScale
      split
      · exact absurd rfl (hrest 'e' rfl).2.2.1
      · exact absurd rfl (hrest 'E' rfl).2.2.2
      · rfl
    simp only [Option.elim_none, List.nil_append, hplain]
    exact readAs_floating ..
  | some exponent =>
    have hscale : readScale negative digits power (exponent.text ++ rest) =
        readExponent negative digits power (exponent.sign.toList ++ exponent.run ++ rest) := by
      rw [Exponent.text]
      rcases exponent.isMark with h | h <;> rw [h] <;> rfl
    simp only [Option.elim_some, hscale]
    exact readAs_readExponent exponent hrest negative digits power

theorem readFraction_append (numeral : Numeral) (hrest : Stops rest) {run : List Char}
    (hrun : IsDigits run) (negative : Bool) (digits : Nat) (power : Int) :
    readFraction negative digits power (run ++ (numeral.scaleText ++ rest)) =
      readScale negative (absorb maxDigits digits run).1 (power - (absorb maxDigits digits run).2)
        (numeral.scaleText ++ rest) := by
  have hhead := numeral.head?_scaleText_isDigit hrest
  unfold readFraction
  rw [hrun.takeWhile_append hhead, hrun.dropWhile_append hhead]
  cases run with
  | nil => exact absurd rfl hrun.ne_nil
  | cons c more => rfl

/-- What follows the digits before the point decides what number is read. -/
theorem readAs_readAfterWhole (numeral : Numeral) (hrest : Stops rest) :
    ReadAs numeral.number rest
      (readAfterWhole numeral.negative (absorb maxDigits 0 numeral.whole).1
        (numeral.whole.length - (absorb maxDigits 0 numeral.whole).2)
        (numeral.fractionText ++ (numeral.scaleText ++ rest))) := by
  have hscale := numeral.readAs_readScale hrest
  unfold fractionText number significand
  cases hfraction : numeral.fraction with
  | some run =>
    have hread := numeral.readFraction_append hrest (numeral.fraction_isDigits run hfraction)
      numeral.negative
    simp only [Option.elim_some, List.cons_append, readAfterWhole, hread]
    convert hscale numeral.negative _ _ using 1
    cases numeral.exponent <;> rfl
  | none =>
    unfold scaleText at hscale ⊢
    simp only [Option.elim_none, List.nil_append]
    cases hexponent : numeral.exponent with
    | some exponent =>
      have hsame (digits dropped : Nat) :
          readAfterWhole numeral.negative digits dropped (exponent.text ++ rest) =
            readScale numeral.negative digits dropped (exponent.text ++ rest) := by
        rw [Exponent.text]
        rcases exponent.isMark with h | h <;> rw [h] <;> rfl
      simp only [hexponent, Option.elim_some] at hscale
      simp only [Option.elim_some, hsame]
      exact hscale ..
    | none =>
      have hplain (digits dropped : Nat) :
          readAfterWhole numeral.negative digits dropped rest =
            if dropped = 0 then .ok (wholeNumber numeral.negative digits, rest)
            else floating numeral.negative digits dropped rest := by
        unfold readAfterWhole
        split
        · exact absurd rfl (hrest '.' rfl).2.1
        · exact absurd rfl (hrest 'e' rfl).2.2.1
        · exact absurd rfl (hrest 'E' rfl).2.2.2
        · rfl
      simp only [Option.elim_none, List.nil_append, hplain, Int.natCast_eq_zero]
      split
      · exact .inRange
      · exact readAs_floating ..

theorem readAs_readMagnitude (numeral : Numeral) (hrest : Stops rest) :
    ReadAs numeral.number rest (readMagnitude numeral.negative
      (numeral.whole ++ (numeral.fractionText ++ (numeral.scaleText ++ rest)))) := by
  have hhead := numeral.head?_fractionText_isDigit hrest
  have hafter := numeral.readAs_readAfterWhole hrest
  by_cases hzero : numeral.whole.head? = some '0'
  · rw [numeral.leadingZero hzero] at hafter ⊢
    simp only [List.cons_append, List.nil_append, readMagnitude, any_isDigit_head? hhead]
    exact hafter
  · obtain ⟨c, more, hwhole, hc, -⟩ := numeral.whole_isDigits.exists_cons
    have htake := numeral.whole_isDigits.takeWhile_append hhead
    have hdrop := numeral.whole_isDigits.dropWhile_append hhead
    rw [hwhole, List.head?_cons, Option.some.injEq] at hzero
    rw [hwhole, List.cons_append] at htake hdrop ⊢
    rw [readMagnitude.eq_def]
    split
    · simp_all
    · simp_all
    · rename_i d others hnot heq
      obtain ⟨rfl, rfl⟩ : c = d ∧ _ = others := by simpa using heq
      rw [if_pos hc, htake, hdrop, ← hwhole]
      exact hafter

theorem readAs_readNumber (numeral : Numeral) (hrest : Stops rest) :
    ReadAs numeral.number rest (readNumber (numeral.text ++ rest)) := by
  have hmagnitude := numeral.readAs_readMagnitude hrest
  obtain ⟨c, more, hwhole, hc, -⟩ := numeral.whole_isDigits.exists_cons
  have hminus : c ≠ '-' := fun h ↦ by simp [h] at hc
  rw [text]
  simp only [List.append_assoc]
  cases hnegative : numeral.negative with
  | true =>
    rw [hnegative] at hmagnitude
    exact hmagnitude
  | false =>
    rw [hnegative] at hmagnitude
    rw [hwhole] at hmagnitude ⊢
    simpa [readNumber, hminus] using hmagnitude

/-- A numeral starts with its sign or with a digit. -/
theorem exists_cons (numeral : Numeral) :
    ∃ c more, numeral.text = c :: more ∧ (c = '-' ∨ c.isDigit) := by
  obtain ⟨c, more, hwhole, hc, -⟩ := numeral.whole_isDigits.exists_cons
  rw [text, hwhole]
  cases numeral.negative with
  | true => exact ⟨_, _, rfl, .inl rfl⟩
  | false => exact ⟨_, _, rfl, .inr hc⟩

/-! ## Skipping numerals -/

theorem skipExponent_append (exponent : Exponent) (hrest : Stops rest) :
    skipExponent (exponent.sign.toList ++ exponent.run ++ rest) = .ok rest := by
  obtain ⟨mark, sign, run, -, hsign, hrun⟩ := exponent
  have hdrop := hrun.dropWhile_append hrest.head?_isDigit
  obtain ⟨c, more, rfl, hc, -⟩ := hrun.exists_cons
  have hplus : c ≠ '+' := fun h ↦ by simp [h] at hc
  have hminus : c ≠ '-' := fun h ↦ by simp [h] at hc
  rw [List.cons_append] at hdrop
  cases sign with
  | none => simp [skipExponent, skipDigits, hc, hdrop, hplus, hminus]
  | some mark =>
    rcases hsign mark rfl with rfl | rfl <;> simp [skipExponent, skipDigits, hc, hdrop]

theorem skipScale_append (numeral : Numeral) (hrest : Stops rest) :
    skipScale (numeral.scaleText ++ rest) = .ok rest := by
  unfold scaleText
  cases numeral.exponent with
  | none =>
    rw [Option.elim_none, List.nil_append]
    unfold skipScale
    split
    · exact absurd rfl (hrest 'e' rfl).2.2.1
    · exact absurd rfl (hrest 'E' rfl).2.2.2
    · rfl
  | some exponent =>
    have hsame : skipScale (exponent.text ++ rest) =
        skipExponent (exponent.sign.toList ++ exponent.run ++ rest) := by
      rw [Exponent.text]
      rcases exponent.isMark with h | h <;> rw [h] <;> rfl
    rw [Option.elim_some, hsame]
    exact skipExponent_append exponent hrest

theorem skipFraction_append (numeral : Numeral) (hrest : Stops rest) :
    skipFraction (numeral.fractionText ++ (numeral.scaleText ++ rest)) = .ok rest := by
  have hscale := numeral.skipScale_append hrest
  unfold fractionText
  cases hfraction : numeral.fraction with
  | some run =>
    have hrun := numeral.fraction_isDigits run hfraction
    have hdrop := hrun.dropWhile_append (numeral.head?_scaleText_isDigit hrest)
    obtain ⟨c, more, rfl, hc, -⟩ := hrun.exists_cons
    rw [List.cons_append] at hdrop
    simp [skipFraction, skipDigits, hc, hdrop, hscale]
  | none =>
    rw [Option.elim_none, List.nil_append]
    unfold skipFraction
    split
    · rename_i after heq
      -- A point would belong to a number that still goes on.
      unfold scaleText at heq
      cases hexponent : numeral.exponent with
      | none =>
        rw [hexponent] at heq
        exact absurd rfl (hrest '.' (by simp_all)).2.1
      | some exponent =>
        rw [hexponent] at heq
        rcases exponent.isMark with h | h <;> simp [Exponent.text, h] at heq
    · exact hscale

theorem skipMagnitude_append (numeral : Numeral) (hrest : Stops rest) :
    skipMagnitude (numeral.whole ++ (numeral.fractionText ++ (numeral.scaleText ++ rest))) =
      .ok rest := by
  have hhead := numeral.head?_fractionText_isDigit hrest
  have hafter := numeral.skipFraction_append hrest
  obtain ⟨c, more, hwhole, hc, hmore⟩ := numeral.whole_isDigits.exists_cons
  by_cases hzero : c = '0'
  · have honly := numeral.leadingZero (by rw [hwhole, hzero]; rfl)
    simp only [honly, List.cons_append, List.nil_append, skipMagnitude, if_pos,
      any_isDigit_head? hhead]
    exact hafter
  · have hdrop := Text.dropWhile_append_of_head? hmore hhead
    simp only [hwhole, List.cons_append, skipMagnitude, if_neg hzero, if_pos hc, skipDigits, hdrop]
    exact hafter

end Numeral

/-- The digits of a natural number, with no zero in front of others. -/
structure WritesWhole (n : Nat) (run : List Char) : Prop where
  isDigits : IsDigits run
  leadingZero : run.head? = some '0' → run = ['0']
  value : Nat.ofDigitChars 10 run 0 = n

namespace Numeral

variable {numeral : Numeral}

theorem number_eq_integer (hsign : numeral.negative = false) (hfraction : numeral.fraction = none)
    (hexponent : numeral.exponent = none)
    (hle : Nat.ofDigitChars 10 numeral.whole 0 ≤ maxDigits) :
    numeral.number = .integer (Nat.ofDigitChars 10 numeral.whole 0) := by
  simp [number, significand, hsign, hfraction, hexponent, absorb_of_le hle, wholeNumber]

theorem scale_ne_integer (exponent : Exponent) (negative : Bool) (digits : Nat)
    (power value : Int) : exponent.scale negative digits power ≠ .integer value := by
  unfold Exponent.scale
  dsimp only
  split <;> exact nofun

/-- A point or an exponent makes a number floating. -/
theorem plain_of_number_eq_integer {value : Int} (h : numeral.number = .integer value) :
    numeral.fraction = none ∧ numeral.exponent = none := by
  unfold number at h
  dsimp only at h
  split at h
  · rename_i hfraction hexponent
    exact ⟨hfraction, hexponent⟩
  · cases h
  · exact absurd h (scale_ne_integer _ _ _ _ _)

/-- Zero with a sign is floating, and any other number with a sign is negative. -/
theorem of_wholeNumber_eq_integer {negative : Bool} {digits n : Nat}
    (h : wholeNumber negative digits = .integer n) : negative = false ∧ digits = n := by
  unfold wholeNumber at h
  split at h
  · split at h
    · cases h
    · have hneg : -(digits : Int) = n := Number.integer.inj h
      omega
  · rename_i hsign
    exact ⟨by simpa using hsign, Int.ofNat.inj (Number.integer.inj h)⟩

/-- A numeral that stands for a natural number has nothing but its digits. -/
theorem of_number_eq_integer {n : Nat} (h : numeral.number = .integer n) :
    n ≤ maxDigits ∧ numeral.text = numeral.whole ∧ Nat.ofDigitChars 10 numeral.whole 0 = n := by
  obtain ⟨hfraction, hexponent⟩ := plain_of_number_eq_integer h
  have hnumber : numeral.number =
      if numeral.whole.length - (absorb maxDigits 0 numeral.whole).2 = 0 then
        wholeNumber numeral.negative (absorb maxDigits 0 numeral.whole).1
      else .floating numeral.negative (absorb maxDigits 0 numeral.whole).1
        (numeral.whole.length - (absorb maxDigits 0 numeral.whole).2 : Nat) := by
    simp [number, significand, hfraction, hexponent]
  rw [hnumber] at h
  split at h
  · rename_i hkept
    have hle := ofDigitChars_le_of_absorb (Nat.zero_le maxDigits) (Nat.sub_eq_zero_iff_le.mp hkept)
    rw [absorb_of_le hle] at h
    obtain ⟨hsign, hvalue⟩ := of_wholeNumber_eq_integer h
    refine ⟨hvalue ▸ hle, ?_, hvalue⟩
    simp [text, fractionText, scaleText, hsign, hfraction, hexponent]
  · cases h

end Numeral

theorem spells_ofNat_iff {n : Nat} {here : List Char} :
    Spells (.ofNat n) here ↔ n ≤ maxDigits ∧ WritesWhole n here := by
  constructor
  · rintro ⟨numeral, hnumber, rfl⟩
    obtain ⟨hle, htext, hvalue⟩ := numeral.of_number_eq_integer hnumber
    rw [htext]
    exact ⟨hle, numeral.whole_isDigits, numeral.leadingZero, hvalue⟩
  · rintro ⟨hle, hdigits, hzero, rfl⟩
    refine ⟨⟨false, here, none, none, hdigits, hzero, by simp⟩, ?_, ?_⟩
    · exact Numeral.number_eq_integer rfl rfl rfl hle
    · simp [Numeral.text, Numeral.fractionText, Numeral.scaleText]

end ScriptSense.Json
