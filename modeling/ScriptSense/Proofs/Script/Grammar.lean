import ScriptSense.Proofs.Script.Declaration
import ScriptSense.Proofs.Text.Runs

/-!
# The grammar of a declaration

A declaration reads keyword, name, mark, and then anything. Blank characters stand between the
keyword and the name, and may stand before the keyword and before the mark. A reading cuts the line
into these parts. Neighbouring parts have characters of different classes, so a line has one reading
at most, and the recogniser, which takes all it can of one class after the other, finds it.
-/

namespace ScriptSense

open Text Script

def SymbolKind.keyword : SymbolKind → List Char
  | .variable => variableKeyword
  | .function => functionKeyword

/-- The character that comes after the name. -/
def SymbolKind.mark : SymbolKind → Char
  | .variable => '='
  | .function => '('

theorem SymbolKind.keyword_ne_nil (kind : SymbolKind) : kind.keyword ≠ [] := by
  cases kind <;> exact List.cons_ne_nil _ _

theorem SymbolKind.isWordChar_keyword (kind : SymbolKind) : ∀ c ∈ kind.keyword, isWordChar c :=
  List.all_eq_true.mp (by cases kind <;> rfl)

theorem SymbolKind.isBlank_keyword (kind : SymbolKind) : ∀ c ∈ kind.keyword, isBlank c = false :=
  fun c hc ↦ isBlank_of_isWordChar (kind.isWordChar_keyword c hc)

theorem SymbolKind.isWordChar_mark (kind : SymbolKind) : isWordChar kind.mark = false := by
  cases kind <;> decide

theorem SymbolKind.isBlank_mark (kind : SymbolKind) : isBlank kind.mark = false := by
  cases kind <;> decide

namespace Script

/-- A letter of the ASCII alphabet or an underscore. -/
def IsLetter (c : Char) : Prop :=
  'A' ≤ c ∧ c ≤ 'Z' ∨ 'a' ≤ c ∧ c ≤ 'z' ∨ c = '_'

def IsDecimal (c : Char) : Prop :=
  '0' ≤ c ∧ c ≤ '9'

def IsIdentifier (name : List Char) : Prop :=
  ∃ c rest, name = c :: rest ∧ IsLetter c ∧ ∀ d ∈ rest, IsLetter d ∨ IsDecimal d

theorem isDigit_iff {c : Char} : c.isDigit ↔ IsDecimal c := by
  rw [Char.isDigit_iff_toNat, IsDecimal, Char.le_def, Char.le_def]
  rfl

theorem isAlpha_iff {c : Char} : c.isAlpha ↔ 'A' ≤ c ∧ c ≤ 'Z' ∨ 'a' ≤ c ∧ c ≤ 'z' := by
  have hupper : c.isUpper ↔ 'A' ≤ c ∧ c ≤ 'Z' := decide_eq_true_iff
  have hlower : c.isLower ↔ 'a' ≤ c ∧ c ≤ 'z' :=
    Bool.and_eq_true_iff.trans (and_congr decide_eq_true_iff decide_eq_true_iff)
  exact Bool.or_eq_true_iff.trans (or_congr hupper hlower)

theorem isWordChar_iff {c : Char} : isWordChar c ↔ IsLetter c ∨ IsDecimal c := by
  rw [isWordChar, Char.isAlphanum, Bool.or_eq_true, Bool.or_eq_true, isAlpha_iff, isDigit_iff,
    beq_iff_eq, IsLetter, or_right_comm, ← or_assoc (a := 'A' ≤ c ∧ c ≤ 'Z')]

theorem not_isDecimal_of_isLetter {c : Char} (h : IsLetter c) : ¬IsDecimal c := by
  rintro ⟨hlow, hhigh⟩
  have hnine : c.toNat ≤ 57 := hhigh
  rcases h with ⟨hA, -⟩ | ⟨ha, -⟩ | rfl
  · have hbound : 65 ≤ c.toNat := hA
    omega
  · have hbound : 97 ≤ c.toNat := ha
    omega
  · exact absurd hhigh (by decide)

theorem isName_iff_isIdentifier {name : List Char} : isName name ↔ IsIdentifier name := by
  cases name with
  | nil => simp [isName, IsIdentifier]
  | cons c rest =>
    have hletter := not_isDecimal_of_isLetter (c := c)
    simp only [isName, Bool.and_eq_true, Bool.not_eq_true', ← Bool.not_eq_true, isDigit_iff,
      List.all_eq_true, List.forall_mem_cons, isWordChar_iff, IsIdentifier, List.cons.injEq]
    grind

theorem IsIdentifier.isWordChar {name : List Char} (h : IsIdentifier name) :
    ∀ c ∈ name, isWordChar c :=
  isWordChar_of_isName (isName_iff_isIdentifier.mpr h)

theorem IsIdentifier.ne_nil {name : List Char} (h : IsIdentifier name) : name ≠ [] := by
  obtain ⟨c, rest, rfl, -⟩ := h
  exact List.cons_ne_nil c rest

theorem isBlank_head?_of_word {word : List Char} (hne : word ≠ [])
    (hword : ∀ c ∈ word, isWordChar c) (after : List Char) :
    ∀ c ∈ (word ++ after).head?, isBlank c = false := by
  intro c hc
  rw [List.head?_append_of_ne_nil _ hne] at hc
  exact isBlank_of_isWordChar (hword c (List.mem_of_head? hc))

theorem isWordChar_head?_of_mark {between : List Char} (hbetween : isBlankLine between)
    {mark : Char} (hmark : isWordChar mark = false) (after : List Char) :
    ∀ c ∈ (between ++ mark :: after).head?, isWordChar c = false := by
  intro c hc
  cases between with
  | nil => exact Option.some.inj hc ▸ hmark
  | cons d blanks => exact isWordChar_head?_of_blank hbetween c hc

theorem isBlank_head?_keyword (kind : SymbolKind) (after : List Char) :
    ∀ c ∈ (kind.keyword ++ after).head?, isBlank c = false :=
  isBlank_head?_of_word kind.keyword_ne_nil kind.isWordChar_keyword after

/-- The line reads keyword, blank characters, `rest`, with blank characters before the keyword. -/
structure Introduction (kind : SymbolKind) (line rest : List Char) where
  before : List Char
  gap : List Char
  line_eq : line = before ++ (kind.keyword ++ (gap ++ rest))
  before_blank : isBlankLine before
  gap_blank : isBlankLine gap
  gap_ne_nil : gap ≠ []

namespace Introduction

variable {kind : SymbolKind} {line rest other : List Char}

/-- What stands before the rest of the line. -/
def front (intro : Introduction kind line rest) : List Char :=
  intro.before ++ (kind.keyword ++ intro.gap)

theorem line_eq_front (intro : Introduction kind line rest) : line = intro.front ++ rest := by
  rw [front, List.append_assoc, List.append_assoc, ← intro.line_eq]

theorem head?_gap (intro : Introduction kind line rest) :
    ∀ c ∈ (intro.gap ++ rest).head?, isWordChar c = false := by
  rw [List.head?_append_of_ne_nil _ intro.gap_ne_nil]
  exact isWordChar_head?_of_blank intro.gap_blank

/-- A keyword that begins the line, and what begins after the blank characters, are found at one
place only. -/
theorem eq_of_head? (first : Introduction kind line rest) (second : Introduction kind line other)
    (hrest : ∀ c ∈ rest.head?, isBlank c = false) (hother : ∀ c ∈ other.head?, isBlank c = false) :
    first.before = second.before ∧ first.gap = second.gap ∧ rest = other := by
  obtain ⟨hbefore, hkeyword⟩ := eq_of_append_eq_of_head? (first.line_eq.symm.trans second.line_eq)
    (isBlankLine_iff.mp first.before_blank) (isBlankLine_iff.mp second.before_blank)
    (isBlank_head?_keyword kind _) (isBlank_head?_keyword kind _)
  obtain ⟨hgap, hrest⟩ := eq_of_append_eq_of_head? (List.append_cancel_left hkeyword)
    (isBlankLine_iff.mp first.gap_blank) (isBlankLine_iff.mp second.gap_blank) hrest hother
  exact ⟨hbefore, hgap, hrest⟩

theorem isPrefixOf?_trimStart (intro : Introduction kind line rest) :
    kind.keyword.isPrefixOf? (trimStart line) = some (intro.gap ++ rest) := by
  have hline : trimStart line = kind.keyword ++ (intro.gap ++ rest) := by
    calc
      trimStart line = trimStart (intro.before ++ (kind.keyword ++ (intro.gap ++ rest))) :=
        congrArg trimStart intro.line_eq
      _ = trimStart (kind.keyword ++ (intro.gap ++ rest)) :=
        trimStart_blank_append intro.before_blank _
      _ = kind.keyword ++ (intro.gap ++ rest) :=
        dropWhile_append_of_head? (List.forall_mem_nil _) (isBlank_head?_keyword kind _)
  rw [hline]
  exact List.isPrefixOf?_eq_some_iff_append_eq.mpr rfl

theorem afterKeyword_eq (intro : Introduction kind line rest)
    (hrest : ∀ c ∈ rest.head?, isBlank c = false) : afterKeyword kind.keyword line = some rest := by
  obtain ⟨c, blanks, hgap⟩ := List.exists_cons_of_ne_nil intro.gap_ne_nil
  have hblank := isBlankLine_iff.mp intro.gap_blank
  rw [hgap, List.forall_mem_cons] at hblank
  have hend : trimStart (blanks ++ rest) = rest := dropWhile_append_of_head? hblank.2 hrest
  rw [afterKeyword, intro.isPrefixOf?_trimStart, hgap]
  simp only [List.cons_append]
  rw [if_pos hblank.1, hend]

end Introduction

/-- What the recogniser finds after the keyword stands there. -/
theorem exists_introduction {kind : SymbolKind} {line rest : List Char}
    (h : afterKeyword kind.keyword line = some rest) :
    Nonempty (Introduction kind line rest) := by
  unfold afterKeyword at h
  split at h
  · rename_i c others hprefix
    split at h
    · rename_i hc
      obtain rfl := Option.some.inj h
      refine ⟨⟨margin line, c :: margin others, ?_, isBlankLine_margin line, ?_,
        List.cons_ne_nil c _⟩⟩
      · calc
          line = margin line ++ trimStart line := List.takeWhile_append_dropWhile.symm
          _ = margin line ++ (kind.keyword ++ c :: others) := by
            rw [List.isPrefixOf?_eq_some_iff_append_eq.mp hprefix]
          _ = _ := by
            rw [List.cons_append, margin, margin, trimStart, List.takeWhile_append_dropWhile]
      · rw [isBlankLine_iff, List.forall_mem_cons]
        exact ⟨hc, isBlankLine_iff.mp (isBlankLine_margin others)⟩
    · contradiction
  · contradiction

/-! ## Declarations -/

/-- A reading of the line as a declaration of `name`. -/
structure Declaration (kind : SymbolKind) (line : List Char) where
  name : List Char
  between : List Char
  after : List Char
  introduction : Introduction kind line (name ++ (between ++ kind.mark :: after))
  identifier : IsIdentifier name
  between_blank : isBlankLine between

namespace Declaration

variable {kind : SymbolKind} {line : List Char}

theorem head?_between (reading : Declaration kind line) :
    ∀ c ∈ (reading.between ++ kind.mark :: reading.after).head?, isWordChar c = false :=
  isWordChar_head?_of_mark reading.between_blank kind.isWordChar_mark reading.after

theorem head?_name (reading : Declaration kind line) (after : List Char) :
    ∀ c ∈ (reading.name ++ after).head?, isBlank c = false :=
  isBlank_head?_of_word reading.identifier.ne_nil reading.identifier.isWordChar after

/-- The parts of a declaration can be told from the line. -/
instance : Subsingleton (Declaration kind line) where
  allEq first second := by
    -- Each part ends where a character of another class comes, so they agree from left to right.
    obtain ⟨hbefore, hgap, hrest⟩ := first.introduction.eq_of_head? second.introduction
      (first.head?_name _) (second.head?_name _)
    obtain ⟨hname, hrest⟩ := eq_of_append_eq_of_head? hrest first.identifier.isWordChar
      second.identifier.isWordChar first.head?_between second.head?_between
    have hmark (after : List Char) : ∀ c ∈ (kind.mark :: after).head?, isBlank c = false := by
      intro c hc
      obtain rfl : kind.mark = c := Option.some.inj hc
      exact kind.isBlank_mark
    obtain ⟨hbetween, hrest⟩ := eq_of_append_eq_of_head? hrest
      (isBlankLine_iff.mp first.between_blank) (isBlankLine_iff.mp second.between_blank)
      (hmark _) (hmark _)
    obtain ⟨name, between, after, ⟨before, gap, _, _, _, _⟩, _, _⟩ := first
    obtain ⟨_, _, _, ⟨_, _, _, _, _, _⟩, _, _⟩ := second
    obtain ⟨-, rfl⟩ := List.cons.inj hrest
    subst hname hbetween hbefore hgap
    rfl

/-- The name stands on the line as a word of its own. -/
theorem isRun (reading : Declaration kind line) :
    IsRun reading.introduction.front reading.name
      (reading.between ++ kind.mark :: reading.after) where
  ne_nil := reading.identifier.ne_nil
  word := reading.identifier.isWordChar
  before c hc := by
    rw [Introduction.front, ← List.append_assoc, List.getLast?_append_of_ne_nil _
      reading.introduction.gap_ne_nil] at hc
    exact isWordChar_of_isBlank
      (isBlankLine_iff.mp reading.introduction.gap_blank c (List.mem_of_getLast? hc))
  after := reading.head?_between

end Declaration

theorem declaredName_eq_some_iff {kind : SymbolKind} {line name : List Char} :
    declaredName kind.keyword kind.mark line = some name ↔
      ∃ reading : Declaration kind line, reading.name = name := by
  constructor
  · intro h
    unfold declaredName at h
    split at h
    · contradiction
    · rename_i rest hrest
      simp only at h
      split at h
      · rename_i hname
        obtain ⟨hidentifier, hmark⟩ := Bool.and_eq_true_iff.mp hname
        obtain ⟨intro⟩ := exists_introduction hrest
        obtain ⟨after, hafter⟩ := List.head?_eq_some_iff.mp (eq_of_beq hmark)
        have hcut : rest = rest.takeWhile isWordChar ++
            (margin (rest.dropWhile isWordChar) ++ kind.mark :: after) := by
          rw [← hafter, margin, trimStart, List.takeWhile_append_dropWhile,
            List.takeWhile_append_dropWhile]
        exact ⟨⟨_, _, after, hcut ▸ intro, isName_iff_isIdentifier.mp hidentifier,
          isBlankLine_margin _⟩, Option.some.inj h⟩
      · contradiction
  · rintro ⟨reading, rfl⟩
    have hafter := reading.introduction.afterKeyword_eq (reading.head?_name _)
    have hmark : trimStart (reading.between ++ kind.mark :: reading.after) =
        kind.mark :: reading.after :=
      dropWhile_append_of_head? (isBlankLine_iff.mp reading.between_blank)
        (fun c hc ↦ Option.some.inj hc ▸ kind.isBlank_mark)
    rw [declaredName, hafter]
    simp only
    rw [takeWhile_append_of_head? reading.identifier.isWordChar reading.head?_between,
      dropWhile_append_of_head? reading.identifier.isWordChar reading.head?_between,
      isName_iff_isIdentifier.mpr reading.identifier, hmark, Bool.true_and, List.head?_cons,
      if_pos (beq_self_eq_true _)]

/-- A reading of the line as a variable and nothing after it. -/
structure BareDeclaration (line : List Char) where
  word : List Char
  after : List Char
  introduction : Introduction .variable line (word ++ after)
  word_ne_nil : word ≠ []
  isWordChar_word : ∀ c ∈ word, IsLetter c ∨ IsDecimal c
  after_blank : isBlankLine after

namespace BareDeclaration

variable {line : List Char}

theorem isWordChar (reading : BareDeclaration line) : ∀ c ∈ reading.word, isWordChar c :=
  fun c hc ↦ isWordChar_iff.mpr (reading.isWordChar_word c hc)

theorem head?_word (reading : BareDeclaration line) :
    ∀ c ∈ (reading.word ++ reading.after).head?, isBlank c = false :=
  isBlank_head?_of_word reading.word_ne_nil reading.isWordChar reading.after

/-- There is no mark that could give a value. -/
theorem equals_notMem (reading : BareDeclaration line) : '=' ∉ line := by
  obtain ⟨word, after, ⟨before, gap, rfl, hbefore, hgap, -⟩, -, hword, hafter⟩ := reading
  have hblank {blanks : List Char} (h : isBlankLine blanks) : '=' ∉ blanks :=
    notMem_of_isBlankLine h (by decide)
  have hnot : '=' ∉ word := by
    intro hmem
    exact absurd (isWordChar_iff.mpr (hword '=' hmem)) (by decide)
  simp only [List.mem_append, not_or]
  exact ⟨hblank hbefore, by decide, hblank hgap, hnot, hblank hafter⟩

end BareDeclaration

theorem isBareDeclaration_iff {line : List Char} :
    isBareDeclaration line ↔ Nonempty (BareDeclaration line) := by
  constructor
  · intro h
    unfold isBareDeclaration at h
    split at h
    · contradiction
    · rename_i rest hrest
      replace hrest : afterKeyword (SymbolKind.keyword .variable) line = some rest := hrest
      obtain ⟨hlone, -⟩ := Bool.and_eq_true_iff.mp h
      obtain ⟨hhead, hblank⟩ := Bool.and_eq_true_iff.mp hlone
      obtain ⟨intro⟩ := exists_introduction hrest
      rw [← List.takeWhile_append_dropWhile (p := isWordChar) (l := rest)] at intro
      obtain ⟨c, hc, hword⟩ := Option.any_eq_true _ _ |>.mp hhead
      obtain ⟨others, rfl⟩ := List.head?_eq_some_iff.mp hc
      refine ⟨⟨_, _, intro, ?_, fun d hd ↦ isWordChar_iff.mp (List.mem_takeWhile_imp hd), hblank⟩⟩
      rw [List.takeWhile_cons_of_pos hword]
      exact List.cons_ne_nil _ _
  · rintro ⟨reading⟩
    have hafter : afterKeyword variableKeyword line = some (reading.word ++ reading.after) :=
      reading.introduction.afterKeyword_eq reading.head?_word
    have hstop := isWordChar_head?_of_blank reading.after_blank
    have hhead : (reading.word ++ reading.after).head?.any isWordChar := by
      obtain ⟨c, others, hcons⟩ := List.exists_cons_of_ne_nil reading.word_ne_nil
      rw [hcons]
      exact reading.isWordChar c (hcons ▸ List.mem_cons_self)
    have hmark : line.contains '=' = false := by
      simpa using reading.equals_notMem
    rw [isBareDeclaration, hafter]
    simp only
    rw [hhead, dropWhile_append_of_head? reading.isWordChar hstop, reading.after_blank, hmark]
    rfl

end Script

end ScriptSense
