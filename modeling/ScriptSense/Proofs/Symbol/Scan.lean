import Mathlib.Data.List.Nodup
import ScriptSense.Symbol.Index

/-!
# The order of a scan

A scan finds at most one declaration on a line and goes down the lines, so the lines of its
occurrences increase strictly. All of them come from the document that is scanned.

What a scan records in a text stays recorded when more lines follow. These are scanned from the
first of them, or from after the documentation block that the text leaves open.
-/

namespace ScriptSense

open Text Script

namespace Symbol

theorem uri_of_mem_scanFrom {uri : String} {number : Nat} {pending : Option String}
    {lines : List (List Char)} {occurrence : Occurrence}
    (h : occurrence ∈ scanFrom uri number pending lines) : occurrence.uri = uri := by
  fun_induction scanFrom uri number pending lines with
  | case1 => simp at h
  | case2 number pending line rest _ block ih => exact ih h
  | case3 number pending line rest name kind _ ih =>
    rcases List.mem_cons.mp h with rfl | h
    · rfl
    · exact ih h
  | case4 number pending line rest _ ih => exact ih h
  | case5 number pending line rest _ ih => exact ih h
  | case6 number pending line rest _ ih => exact ih h

theorem uri_of_mem_scan {uri text : String} {occurrence : Occurrence}
    (h : occurrence ∈ scan uri text) : occurrence.uri = uri :=
  uri_of_mem_scanFrom h

theorem le_line_of_mem_scanFrom {uri : String} {number : Nat} {pending : Option String}
    {lines : List (List Char)} {occurrence : Occurrence}
    (h : occurrence ∈ scanFrom uri number pending lines) : number ≤ occurrence.line := by
  fun_induction scanFrom uri number pending lines with
  | case1 => simp at h
  | case2 number pending line rest _ block ih => exact Nat.le_trans (Nat.le_add_right _ _) (ih h)
  | case3 number pending line rest name kind _ ih =>
    rcases List.mem_cons.mp h with rfl | h
    · exact Nat.le_refl _
    · exact Nat.le_trans (Nat.le_succ _) (ih h)
  | case4 number pending line rest _ ih => exact Nat.le_trans (Nat.le_succ _) (ih h)
  | case5 number pending line rest _ ih => exact Nat.le_trans (Nat.le_succ _) (ih h)
  | case6 number pending line rest _ ih => exact Nat.le_trans (Nat.le_succ _) (ih h)

theorem pairwise_line_scanFrom (uri : String) (number : Nat) (pending : Option String)
    (lines : List (List Char)) :
    (scanFrom uri number pending lines).Pairwise fun a b ↦ a.line < b.line := by
  fun_induction scanFrom uri number pending lines with
  | case1 => exact .nil
  | case2 number pending line rest _ block ih => exact ih
  | case3 number pending line rest name kind _ ih =>
    refine List.pairwise_cons.mpr ⟨?_, ih⟩
    intro later hlater
    exact le_line_of_mem_scanFrom hlater
  | case4 number pending line rest _ ih => exact ih
  | case5 number pending line rest _ ih => exact ih
  | case6 number pending line rest _ ih => exact ih

theorem pairwise_line_scan (uri text : String) :
    (scan uri text).Pairwise fun a b ↦ a.line < b.line :=
  pairwise_line_scanFrom uri 0 none (Text.lines text)

/-- Of occurrences that go down the lines, no two stand on one line. -/
theorem eq_of_line_eq {occurrences : List Occurrence}
    (h : occurrences.Pairwise fun earlier later ↦ earlier.line < later.line)
    {first second : Occurrence} (hfirst : first ∈ occurrences) (hsecond : second ∈ occurrences)
    (heq : first.line = second.line) : first = second := by
  have hnodup : (occurrences.map Occurrence.line).Nodup := by
    rw [List.Nodup, List.pairwise_map]
    exact h.imp Nat.ne_of_lt
  exact List.inj_on_of_nodup_map hnodup hfirst hsecond heq

end Symbol

namespace Script.DocBlock

theorem split_append_of_closed {front : List (List Char)} (h : front.any closesDoc)
    (back : List (List Char)) :
    split (front ++ back) = ((split front).1, (split front).2 ++ back) := by
  induction front with
  | nil => contradiction
  | cons line rest ih =>
    rw [List.cons_append, split, split]
    split
    · rfl
    · rename_i hline
      have hrest : rest.any closesDoc := by simpa [hline] using h
      rw [ih hrest]

/-- A block that no line ends goes on in the lines that follow. -/
theorem split_append_of_open {front : List (List Char)} (h : front.any closesDoc = false)
    (back : List (List Char)) :
    split (front ++ back) = (front ++ (split back).1, (split back).2) := by
  induction front with
  | nil => rfl
  | cons line rest ih =>
    obtain ⟨hline, hrest⟩ := Bool.or_eq_false_iff.mp h
    rw [List.cons_append, split, hline, if_neg Bool.false_ne_true, ih hrest, List.cons_append]

end Script.DocBlock

namespace Symbol

theorem exists_scanFrom_append (uri : String) (number : Nat) (pending : Option String)
    (lines tail : List (List Char)) :
    ∃ next waiting rest, number + lines.length ≤ next ∧ rest <:+ tail ∧
      scanFrom uri number pending (lines ++ tail) =
        scanFrom uri number pending lines ++ scanFrom uri next waiting rest := by
  fun_induction scanFrom uri number pending lines with
  | case1 number pending =>
    exact ⟨number, pending, tail, Nat.le_refl _, List.suffix_rfl, rfl⟩
  | case2 number pending line rest hshape block ih =>
    cases hclosed : (line :: rest).any closesDoc with
    | true =>
      obtain ⟨next, waiting, later, hnext, hlater, heq⟩ := ih
      have hlength : block.length + (DocBlock.split (line :: rest)).2.length =
          (line :: rest).length := by
        rw [← List.length_append, DocBlock.split_append]
      refine ⟨next, waiting, later, by omega, hlater, ?_⟩
      rw [← heq, List.cons_append, scanFrom, hshape]
      simp only
      rw [← List.cons_append, DocBlock.split_append_of_closed hclosed]
    | false =>
      -- Nothing of this text is left after the block, and the block takes lines of the other.
      have hopen := DocBlock.split_append_of_open hclosed []
      have hfurther := DocBlock.split_append_of_open hclosed tail
      have hlength : (line :: rest).length ≤ (line :: rest ++ (DocBlock.split tail).1).length := by
        rw [List.length_append]
        exact Nat.le_add_right _ _
      rw [List.append_nil] at hopen
      rw [List.cons_append] at hfurther
      rw [hopen, DocBlock.split, scanFrom, List.cons_append, scanFrom, hshape]
      simp only [hfurther]
      exact ⟨_, _, _, Nat.add_le_add_left hlength number, ⟨_, DocBlock.split_append tail⟩,
        (List.nil_append _).symm⟩
  | case3 number pending line rest name kind hshape ih =>
    obtain ⟨next, waiting, later, hnext, hlater, heq⟩ := ih
    refine ⟨next, waiting, later, by rw [List.length_cons]; omega, hlater, ?_⟩
    rw [List.cons_append, List.cons_append, ← heq, scanFrom, hshape]
  | case4 number pending line rest hshape ih =>
    obtain ⟨next, waiting, later, hnext, hlater, heq⟩ := ih
    refine ⟨next, waiting, later, by rw [List.length_cons]; omega, hlater, ?_⟩
    rw [← heq, List.cons_append, scanFrom, hshape]
  | case5 number pending line rest hshape ih =>
    obtain ⟨next, waiting, later, hnext, hlater, heq⟩ := ih
    refine ⟨next, waiting, later, by rw [List.length_cons]; omega, hlater, ?_⟩
    rw [← heq, List.cons_append, scanFrom, hshape]
  | case6 number pending line rest hshape ih =>
    obtain ⟨next, waiting, later, hnext, hlater, heq⟩ := ih
    refine ⟨next, waiting, later, by rw [List.length_cons]; omega, hlater, ?_⟩
    rw [← heq, List.cons_append, scanFrom, hshape]

/-- Without a declaration there is nothing to record. -/
theorem scanFrom_eq_nil {uri : String} {number : Nat} {pending : Option String}
    {lines : List (List Char)}
    (h : ∀ line ∈ lines, ∀ name kind, shape line ≠ .declaration name kind) :
    scanFrom uri number pending lines = [] := by
  fun_induction scanFrom uri number pending lines with
  | case1 => rfl
  | case2 number pending line rest _ block ih =>
    have hafter : (DocBlock.split (line :: rest)).2 <:+ line :: rest :=
      ⟨_, DocBlock.split_append (line :: rest)⟩
    exact ih fun other hother ↦ h other (hafter.subset hother)
  | case3 number pending line rest name kind hshape ih =>
    exact absurd hshape (h line List.mem_cons_self name kind)
  | case4 number pending line rest _ ih => exact ih (List.forall_mem_cons.mp h).2
  | case5 number pending line rest _ ih => exact ih (List.forall_mem_cons.mp h).2
  | case6 number pending line rest _ ih => exact ih (List.forall_mem_cons.mp h).2

/-- Lines without declarations add nothing to what is recorded. -/
theorem scanFrom_append_eq_self {tail : List (List Char)}
    (h : ∀ line ∈ tail, ∀ name kind, shape line ≠ .declaration name kind) (uri : String)
    (number : Nat) (pending : Option String) (lines : List (List Char)) :
    scanFrom uri number pending (lines ++ tail) = scanFrom uri number pending lines := by
  obtain ⟨next, waiting, rest, -, hrest, heq⟩ :=
    exists_scanFrom_append uri number pending lines tail
  rw [heq, scanFrom_eq_nil fun line hline ↦ h line (hrest.subset hline), List.append_nil]

end Symbol

end ScriptSense
