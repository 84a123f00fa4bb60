import ScriptSense.Proofs.Text.Margin
import ScriptSense.Script.Shape

/-!
# Recognition ignores margins

Some recognisers look at the trimmed line, and others read the line itself from a keyword onwards.
All of them give the same answer with and without blank margins, so a line can be replaced by its
trimmed text.
-/

namespace ScriptSense.Script

open Text

/-- A function of lines that sees nothing of blank margins. -/
def IgnoresMargins {α : Type} (f : List Char → α) : Prop :=
  ∀ before core after, isBlankLine before → isBlankLine after →
    f (before ++ core ++ after) = f core

theorem ignoresMargins_comp_trim {α : Type} (f : List Char → α) :
    IgnoresMargins fun line ↦ f (trim line) := by
  intro before core after hbefore hafter
  exact congrArg f (trim_margins hbefore hafter core)

theorem IgnoresMargins.trim {α : Type} {f : List Char → α} (h : IgnoresMargins f)
    (line : List Char) : f (trim line) = f line := by
  conv_rhs => rw [← margin_append_trim line]
  rw [h _ _ _ (isBlankLine_margin line) (isBlankLine_takeEndWhile _)]

theorem ignoresMargins_isBlankLine : IgnoresMargins isBlankLine := by
  intro before core after hbefore hafter
  rw [isBlankLine_append, isBlankLine_append, hbefore, hafter, Bool.true_and, Bool.and_true]

theorem ignoresMargins_isComment : IgnoresMargins isComment :=
  ignoresMargins_comp_trim fun core ↦ ['#'].isPrefixOf core || ['/', '/'].isPrefixOf core

theorem ignoresMargins_opensDoc : IgnoresMargins opensDoc :=
  ignoresMargins_comp_trim docOpener.isPrefixOf

theorem ignoresMargins_closesDoc : IgnoresMargins closesDoc :=
  ignoresMargins_comp_trim docCloser.isSuffixOf

theorem ignoresMargins_startsWithWord (keyword : List Char) :
    IgnoresMargins (startsWithWord keyword) :=
  ignoresMargins_comp_trim (keyword ++ [' ']).isPrefixOf

theorem ignoresMargins_isOpenConditional : IgnoresMargins isOpenConditional :=
  ignoresMargins_comp_trim fun core ↦
    (conditionalKeyword ++ [' ']).isPrefixOf core && !core.contains '\x7b'

theorem ignoresMargins_endsConditional : IgnoresMargins endsConditional :=
  ignoresMargins_comp_trim (· == conditionalEnd)

theorem ignoresMargins_startsBlock : IgnoresMargins startsBlock := by
  intro before core after hbefore hafter
  rw [startsBlock, ignoresMargins_startsWithWord _ _ _ _ hbefore hafter,
    ignoresMargins_startsWithWord _ _ _ _ hbefore hafter, startsBlock]

section Declarations

variable {before after keyword : List Char}

/-- A keyword has no blank characters, so those after a text do not complete one. -/
theorem isPrefixOf?_append_blank (hkeyword : ∀ c ∈ keyword, isBlank c = false)
    (hafter : isBlankLine after) (line : List Char) :
    keyword.isPrefixOf? (line ++ after) = (keyword.isPrefixOf? line).map (· ++ after) := by
  induction keyword generalizing line with
  | nil => rfl
  | cons k rest ih =>
    have hk := hkeyword k List.mem_cons_self
    cases line with
    | nil =>
      cases after with
      | nil => rfl
      | cons c blanks =>
        have hc := isBlankLine_iff.mp hafter c List.mem_cons_self
        have hne : k ≠ c := by
          rintro rfl
          simp [hk] at hc
        simp [List.isPrefixOf?, hne]
    | cons c line =>
      simp only [List.cons_append, List.isPrefixOf?]
      split
      · exact ih (fun d hd ↦ hkeyword d (List.mem_cons_of_mem _ hd)) line
      · rfl

theorem afterKeyword_blank_append (hbefore : isBlankLine before) (keyword line : List Char) :
    afterKeyword keyword (before ++ line) = afterKeyword keyword line := by
  rw [afterKeyword, trimStart_blank_append hbefore, afterKeyword]

/-- Blank characters after a line come after what follows the keyword. A line with nothing after the
keyword is not told apart from one without the keyword. -/
theorem afterKeyword_append_blank (hkeyword : ∀ c ∈ keyword, isBlank c = false)
    (hafter : isBlankLine after) (line : List Char) :
    ∃ tail, isBlankLine tail ∧ (afterKeyword keyword (line ++ after)).getD [] =
      (afterKeyword keyword line).getD [] ++ tail := by
  by_cases hnil : trimStart line = []
  · refine ⟨[], rfl, ?_⟩
    rw [afterKeyword, trimStart_append_blank hafter, if_pos hnil, afterKeyword, hnil,
      List.append_nil]
  · rw [afterKeyword, trimStart_append_blank hafter, if_neg hnil, afterKeyword,
      isPrefixOf?_append_blank hkeyword hafter]
    cases keyword.isPrefixOf? (trimStart line) with
    | none => exact ⟨[], rfl, rfl⟩
    | some rest =>
      cases rest with
      | nil =>
        refine ⟨[], rfl, ?_⟩
        cases after with
        | nil => rfl
        | cons c blanks =>
          obtain ⟨hc, hblanks⟩ := Bool.and_eq_true_iff.mp hafter
          simp [hc, trimStart_eq_nil hblanks]
      | cons c rest =>
        cases hc : isBlank c with
        | false => exact ⟨[], rfl, by simp [hc]⟩
        | true =>
          by_cases hrest : trimStart rest = []
          · exact ⟨[], rfl, by simp [hc, trimStart_append_blank hafter, hrest]⟩
          · exact ⟨after, hafter, by simp [hc, trimStart_append_blank hafter, hrest]⟩

/-- The name at the start of a text, with `mark` after it. -/
def nameBefore (mark : Char) (rest : List Char) : Option (List Char) :=
  let name := rest.takeWhile isWordChar
  if isName name && (trimStart (rest.dropWhile isWordChar)).head? == some mark then some name
  else none

theorem declaredName_eq_nameBefore (keyword : List Char) (mark : Char) (line : List Char) :
    declaredName keyword mark line = nameBefore mark ((afterKeyword keyword line).getD []) := by
  rw [declaredName]
  split
  · rename_i hnone
    rw [hnone]
    rfl
  · rename_i rest hrest
    rw [hrest]
    rfl

theorem nameBefore_append_blank (hafter : isBlankLine after) (mark : Char) (rest : List Char) :
    nameBefore mark (rest ++ after) = nameBefore mark rest := by
  have hstop := isWordChar_head?_of_blank hafter
  rw [nameBefore, takeWhile_isWordChar_append hstop, dropWhile_isWordChar_append hstop,
    trimStart_append_blank hafter, nameBefore]
  cases trimStart (rest.dropWhile isWordChar) with
  | nil => rw [if_pos rfl]
  | cons c blanks => rw [if_neg (List.cons_ne_nil c blanks), List.cons_append, List.head?_cons,
      List.head?_cons]

theorem ignoresMargins_declaredName (hkeyword : ∀ c ∈ keyword, isBlank c = false) (mark : Char) :
    IgnoresMargins (declaredName keyword mark) := by
  intro before core after hbefore hafter
  obtain ⟨tail, htail, hrest⟩ := afterKeyword_append_blank hkeyword hafter core
  calc
    _ = nameBefore mark ((afterKeyword keyword (core ++ after)).getD []) := by
      rw [declaredName_eq_nameBefore, List.append_assoc, afterKeyword_blank_append hbefore]
    _ = nameBefore mark ((afterKeyword keyword core).getD [] ++ tail) := by rw [hrest]
    _ = nameBefore mark ((afterKeyword keyword core).getD []) :=
      nameBefore_append_blank htail mark _
    _ = _ := (declaredName_eq_nameBefore keyword mark core).symm

/-- Whether a text is one word and blank characters after it. -/
def isLoneWord (rest : List Char) : Bool :=
  rest.head?.any isWordChar && isBlankLine (rest.dropWhile isWordChar)

theorem isBareDeclaration_eq_isLoneWord (line : List Char) :
    isBareDeclaration line =
      (isLoneWord ((afterKeyword variableKeyword line).getD []) && !line.contains '=') := by
  rw [isBareDeclaration]
  split
  · rename_i hnone
    rw [hnone]
    rfl
  · rename_i rest hrest
    rw [hrest]
    rfl

theorem isLoneWord_append_blank (hafter : isBlankLine after) (rest : List Char) :
    isLoneWord (rest ++ after) = isLoneWord rest := by
  have hhead : (rest ++ after).head?.any isWordChar = rest.head?.any isWordChar := by
    cases rest with
    | cons c rest => rfl
    | nil =>
      cases after with
      | nil => rfl
      | cons c blanks =>
        exact isWordChar_of_isBlank (isBlankLine_iff.mp hafter c List.mem_cons_self)
  rw [isLoneWord, hhead, dropWhile_isWordChar_append (isWordChar_head?_of_blank hafter),
    isBlankLine_append, hafter, Bool.and_true, isLoneWord]

theorem contains_margins {mark : Char} (hmark : isBlank mark = false) (hbefore : isBlankLine before)
    (hafter : isBlankLine after) (core : List Char) :
    (before ++ core ++ after).contains mark = core.contains mark := by
  have hnone {margin : List Char} (hmargin : isBlankLine margin) :
      margin.contains mark = false := by
    simpa using notMem_of_isBlankLine hmargin hmark
  rw [List.contains_append, List.contains_append, hnone hbefore, hnone hafter, Bool.false_or,
    Bool.or_false]

theorem isBlank_variableKeyword : ∀ c ∈ variableKeyword, isBlank c = false := by
  simp [variableKeyword, isBlank, blankStretches]

theorem isBlank_functionKeyword : ∀ c ∈ functionKeyword, isBlank c = false := by
  simp [functionKeyword, isBlank, blankStretches]

theorem ignoresMargins_isBareDeclaration : IgnoresMargins isBareDeclaration := by
  intro before core after hbefore hafter
  obtain ⟨tail, htail, hrest⟩ := afterKeyword_append_blank isBlank_variableKeyword hafter core
  have hlone : isLoneWord ((afterKeyword variableKeyword (before ++ core ++ after)).getD []) =
      isLoneWord ((afterKeyword variableKeyword core).getD []) := by
    rw [List.append_assoc, afterKeyword_blank_append hbefore, hrest]
    exact isLoneWord_append_blank htail _
  rw [isBareDeclaration_eq_isLoneWord, hlone, contains_margins (by decide) hbefore hafter,
    isBareDeclaration_eq_isLoneWord]

end Declarations

theorem ignoresMargins_shape : IgnoresMargins shape := by
  intro before core after hbefore hafter
  rw [shape, ignoresMargins_isBlankLine _ _ _ hbefore hafter,
    ignoresMargins_isComment _ _ _ hbefore hafter, ignoresMargins_opensDoc _ _ _ hbefore hafter,
    ignoresMargins_declaredName isBlank_variableKeyword _ _ _ _ hbefore hafter,
    ignoresMargins_declaredName isBlank_functionKeyword _ _ _ _ hbefore hafter, shape]

theorem ignoresMargins_isExempt : IgnoresMargins isExempt := by
  intro before core after hbefore hafter
  rw [isExempt, ignoresMargins_shape _ _ _ hbefore hafter, isExempt]

section DeclaredName

variable {keyword line : List Char}

theorem suffix_of_afterKeyword {rest : List Char} (h : afterKeyword keyword line = some rest) :
    rest <:+ line := by
  unfold afterKeyword at h
  split at h
  · rename_i c blanks hprefix
    split at h
    · rw [← Option.some.inj h]
      have hblanks : c :: blanks <:+ trimStart line :=
        ⟨keyword, List.isPrefixOf?_eq_some_iff_append_eq.mp hprefix⟩
      have hrest : trimStart blanks <:+ c :: blanks :=
        (List.dropWhile_suffix isBlank).trans (List.suffix_cons c blanks)
      exact hrest.trans (hblanks.trans (List.dropWhile_suffix isBlank))
    · contradiction
  · contradiction

/-- A declaration declares a word that stands on its line. -/
theorem word_of_declaredName {mark : Char} {name : List Char}
    (h : declaredName keyword mark line = some name) :
    name ≠ [] ∧ (∀ c ∈ name, isWordChar c) ∧ name <:+: line := by
  unfold declaredName at h
  split at h
  · contradiction
  · rename_i rest hrest
    simp only at h
    split at h
    · rename_i hname
      rw [← Option.some.inj h]
      refine ⟨?_, fun c hc ↦ List.mem_takeWhile_imp hc, ?_⟩
      · intro hnil
        simp [hnil, isName] at hname
      · exact (List.takeWhile_prefix _).isInfix.trans (suffix_of_afterKeyword hrest).isInfix
    · contradiction

theorem declaredName_of_shape {name : String} {kind : SymbolKind}
    (h : shape line = .declaration name kind) :
    ∃ keyword mark, declaredName keyword mark line = some name.toList := by
  unfold shape at h
  -- Only the two keywords make a line a declaration.
  repeat' split at h
  all_goals try contradiction
  · rename_i chars hname
    obtain ⟨rfl, -⟩ := Shape.declaration.inj h
    exact ⟨variableKeyword, '=', by rw [hname, String.toList_ofList]⟩
  · rename_i chars hname
    obtain ⟨rfl, -⟩ := Shape.declaration.inj h
    exact ⟨functionKeyword, '(', by rw [hname, String.toList_ofList]⟩

theorem word_of_shape {name : String} {kind : SymbolKind}
    (h : shape line = .declaration name kind) :
    name.toList ≠ [] ∧ (∀ c ∈ name.toList, isWordChar c) ∧ name.toList <:+: line := by
  obtain ⟨keyword, mark, hname⟩ := declaredName_of_shape h
  exact word_of_declaredName hname

end DeclaredName

end ScriptSense.Script
