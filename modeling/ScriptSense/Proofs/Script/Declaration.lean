import ScriptSense.Proofs.Script.Recognition
import ScriptSense.Proofs.Text.Cuts

/-!
# The line of a declaration

The line `let name = 0` declares the name and does nothing else: it begins no conditional and no
function, ends no conditional, and opens no documentation.
-/

namespace ScriptSense.Script

open Text

/-- The line that declares a variable of the given name. -/
def declarationLine (name : String) : List Char :=
  ("let " ++ name ++ " = 0").toList

theorem declarationLine_eq (name : String) :
    declarationLine name = variableKeyword ++ ' ' :: (name.toList ++ [' ', '=', ' ', '0']) := by
  rw [declarationLine, String.toList_append, String.toList_append, List.append_assoc]
  rfl

theorem trim_declarationLine (name : String) :
    trim (declarationLine name) = declarationLine name := by
  have hstart : trimStart (declarationLine name) = declarationLine name := by
    rw [declarationLine_eq]
    rfl
  have hlast : ∀ c ∈ (declarationLine name).getLast?, isBlank c = false := by
    rw [declarationLine, String.toList_append, List.getLast?_append]
    simp [isBlank, blankStretches]
  have hend : dropEndWhile isBlank (declarationLine name ++ []) = declarationLine name :=
    dropEndWhile_append_of_getLast? (by simp) hlast
  rw [List.append_nil] at hend
  rw [trim, hstart, trimEnd, hend]

theorem startsDeclaration_declarationLine (name : String) :
    startsDeclaration (declarationLine name) := by
  rw [startsDeclaration, startsWithWord, trim_declarationLine, declarationLine_eq]
  rfl

theorem startsBlock_declarationLine (name : String) :
    startsBlock (declarationLine name) = false := by
  rw [startsBlock, startsWithWord, startsWithWord, trim_declarationLine, declarationLine_eq]
  rfl

theorem endsConditional_declarationLine (name : String) :
    endsConditional (declarationLine name) = false := by
  rw [endsConditional, trim_declarationLine, declarationLine_eq]
  rfl

theorem isBareDeclaration_declarationLine (name : String) :
    isBareDeclaration (declarationLine name) = false := by
  have hassigns : (declarationLine name).contains '=' := by
    rw [declarationLine_eq]
    simp
  rw [isBareDeclaration_eq_isLoneWord, hassigns, Bool.not_true, Bool.and_false]

section Name

variable {name : String}

theorem isWordChar_of_isName {run : List Char} (h : isName run) : ∀ c ∈ run, isWordChar c := by
  cases run with
  | nil => contradiction
  | cons c rest => exact List.all_eq_true.mp (Bool.and_eq_true_iff.mp h).2

theorem declaredName_declarationLine (h : isName name.toList) :
    declaredName variableKeyword '=' (declarationLine name) = some name.toList := by
  have hword := isWordChar_of_isName h
  have hstart : trimStart (name.toList ++ [' ', '=', ' ', '0']) =
      name.toList ++ [' ', '=', ' ', '0'] := by
    cases hname : name.toList with
    | nil =>
      rw [hname] at h
      contradiction
    | cons c rest =>
      have hc := isBlank_of_isWordChar (hword c (hname ▸ List.mem_cons_self))
      rw [trimStart, List.cons_append, List.dropWhile_cons_of_neg (Bool.eq_false_iff.mp hc)]
  have hafter : afterKeyword variableKeyword (declarationLine name) =
      some (name.toList ++ [' ', '=', ' ', '0']) := by
    rw [← hstart, declarationLine_eq]
    rfl
  have hspace : ∀ c ∈ [' ', '=', ' ', '0'].head?, isWordChar c = false := by
    intro c hc
    obtain rfl : ' ' = c := Option.some.inj hc
    decide
  rw [declaredName, hafter]
  simp only
  rw [takeWhile_append_of_head? hword hspace, dropWhile_append_of_head? hword hspace, h,
    Bool.true_and, if_pos (by decide)]

theorem shape_declarationLine (h : isName name.toList) :
    shape (declarationLine name) = .declaration name .variable := by
  have hblank : isBlankLine (declarationLine name) = false := by
    rw [declarationLine_eq]
    rfl
  have hcomment : isComment (declarationLine name) = false := by
    rw [isComment, trim_declarationLine, declarationLine_eq]
    rfl
  have hopens : opensDoc (declarationLine name) = false := by
    rw [opensDoc, trim_declarationLine, declarationLine_eq]
    rfl
  rw [shape, hblank, hcomment, hopens, declaredName_declarationLine h]
  simp

theorem notMem_declarationLine (h : isName name.toList) {c : Char} (hc : isWordChar c = false)
    (hother : c ∉ [' ', '=']) : c ∉ declarationLine name := by
  have hnot : c ∉ name.toList := by
    intro hmem
    rw [isWordChar_of_isName h c hmem] at hc
    contradiction
  have hfixed (d : Char) (hd : isWordChar d) : c ≠ d := by
    rintro rfl
    rw [hd] at hc
    contradiction
  rw [declarationLine_eq]
  simp_all [variableKeyword, hfixed 'l' (by decide), hfixed 'e' (by decide), hfixed 't' (by decide),
    hfixed '0' (by decide)]

end Name

end ScriptSense.Script
