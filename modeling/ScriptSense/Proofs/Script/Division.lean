import ScriptSense.Proofs.Text.Intervals
import ScriptSense.Script.DocBlock

/-!
# The blocks of a text

Read from the top, a documentation block opens at each opening line that is outside all blocks, and
covers the lines through the first one that closes it, or through the end. This divides a text in
one way only.

A line that is inserted outside the documentation blocks moves the blocks below it down by one line
and opens none, so the division of the text into blocks and other lines stays the same otherwise.
-/

namespace ScriptSense.Script

open Text

/-- The lines from `first` through `last`. -/
structure Block where
  first : Nat
  last : Nat
  deriving DecidableEq, Repr

namespace Block

def Covers (block : Block) (number : Nat) : Prop :=
  block.first ≤ number ∧ number ≤ block.last

/-- The lines that the block covers. -/
def covered (lines : List (List Char)) (block : Block) : List (List Char) :=
  (lines.drop block.first).take (block.last + 1 - block.first)

/-- The block opens at its first line, and its last line is the first one that closes it, or the
last one of all. -/
structure Spans (lines : List (List Char)) (block : Block) : Prop where
  opens : lines[block.first]?.any opensDoc
  ordered : block.first ≤ block.last
  inText : block.last < lines.length
  stays : ∀ number, block.first ≤ number → number < block.last →
    lines[number]?.any closesDoc = false
  ends : lines[block.last]?.any closesDoc ∨ block.last + 1 = lines.length

end Block

/-- The blocks of the lines, from the top. -/
structure Divides (lines : List (List Char)) (blocks : List Block) : Prop where
  spans : ∀ block ∈ blocks, block.Spans lines
  ordered : blocks.Pairwise fun block later ↦ block.last < later.first
  complete : ∀ number, lines[number]?.any opensDoc → ∃ block ∈ blocks, block.Covers number

namespace DocBlock

theorem exists_end {lines : List (List Char)} (h : lines ≠ []) :
    ∃ count < lines.length, (∀ index < count, lines[index]?.any closesDoc = false) ∧
      (lines[count]?.any closesDoc ∨ count + 1 = lines.length) := by
  induction lines with
  | nil => exact absurd rfl h
  | cons line rest ih =>
    by_cases hends : closesDoc line ∨ rest = []
    · refine ⟨0, by simp, by simp, ?_⟩
      rcases hends with hcloses | rfl
      · exact .inl hcloses
      · exact .inr rfl
    · obtain ⟨hcloses, hrest⟩ := not_or.mp hends
      obtain ⟨count, hcount, hstays, hend⟩ := ih hrest
      refine ⟨count + 1, Nat.succ_lt_succ hcount, ?_, hend.imp id (congrArg Nat.succ)⟩
      intro index hindex
      cases index with
      | zero => simpa using hcloses
      | succ index => exact hstays index (Nat.lt_of_succ_lt_succ hindex)

theorem split_eq {lines : List (List Char)} {count : Nat} (hcount : count < lines.length)
    (hstays : ∀ index < count, lines[index]?.any closesDoc = false)
    (hend : lines[count]?.any closesDoc ∨ count + 1 = lines.length) :
    split lines = (lines.take (count + 1), lines.drop (count + 1)) := by
  induction lines generalizing count with
  | nil => simp at hcount
  | cons line rest ih =>
    cases count with
    | zero =>
      unfold split
      split
      · rfl
      · rename_i hcloses
        have hlength : 0 + 1 = (line :: rest).length := hend.resolve_left hcloses
        have hrest : rest = [] := by simpa using hlength
        rw [hrest]
        rfl
    | succ count =>
      have hcloses : closesDoc line = false := hstays 0 (Nat.succ_pos count)
      have hsplit := ih (Nat.lt_of_succ_lt_succ hcount)
        (fun index hindex ↦ hstays (index + 1) (Nat.succ_lt_succ hindex))
        (hend.imp id Nat.succ.inj)
      unfold split
      rw [hcloses, if_neg Bool.false_ne_true, hsplit]
      rfl

end DocBlock

namespace Block

variable {lines rest : List (List Char)} {line : List Char} {number : Nat} {block other : Block}

/-- Blocks that open at the same line are the same. -/
theorem Spans.eq_of_first_eq (h : block.Spans lines) (hother : other.Spans lines)
    (hfirst : block.first = other.first) : block = other := by
  have hle {a b : Block} (ha : a.Spans lines) (hb : b.Spans lines) (heq : a.first = b.first) :
      a.last ≤ b.last := by
    by_contra hlt
    have hlater : b.last < a.last := Nat.not_le.mp hlt
    have hopen := ha.stays b.last (heq ▸ hb.ordered) hlater
    rcases hb.ends with hcloses | hend
    · rw [hopen] at hcloses
      contradiction
    · have hin := ha.inText
      omega
  have hlast := Nat.le_antisymm (hle h hother hfirst) (hle hother h hfirst.symm)
  cases block
  cases other
  simp_all

/-- Cutting a text at the opening of a block cuts off what the block covers. -/
theorem Spans.split_drop (h : block.Spans lines) :
    DocBlock.split (lines.drop block.first) =
      (block.covered lines, lines.drop (block.last + 1)) := by
  have hordered := h.ordered
  have hin := h.inText
  have hlast : block.first + (block.last - block.first) = block.last := by omega
  have hsplit : DocBlock.split (lines.drop block.first) =
      ((lines.drop block.first).take (block.last - block.first + 1),
        (lines.drop block.first).drop (block.last - block.first + 1)) := by
    apply DocBlock.split_eq
    · rw [List.length_drop]
      omega
    · intro index hindex
      rw [List.getElem?_drop]
      exact h.stays _ (Nat.le_add_right _ _) (by omega)
    · rw [List.getElem?_drop, hlast, List.length_drop]
      exact h.ends.imp id (by omega)
  rw [hsplit, List.drop_drop, covered, ← Nat.add_assoc, hlast, Nat.sub_add_comm hordered]

theorem Spans.length_covered (h : block.Spans lines) :
    block.first + (block.covered lines).length = block.last + 1 := by
  have hordered := h.ordered
  have hin := h.inText
  rw [covered, List.length_take, List.length_drop]
  omega

theorem Spans.getLast?_covered (h : block.Spans lines) :
    (block.covered lines).getLast? = lines[block.last]? := by
  have hlength := h.length_covered
  have hordered := h.ordered
  have hlast : block.first + (block.last - block.first) = block.last := by omega
  have hindex : (block.covered lines).length - 1 = block.last - block.first := by omega
  rw [List.getLast?_eq_getElem?, hindex, covered, List.getElem?_take_of_lt (by omega),
    List.getElem?_drop, hlast]

/-- At every opening line a block can open. -/
theorem exists_spans (h : lines[number]?.any opensDoc) :
    ∃ last, (Block.mk number last).Spans lines := by
  have hne : lines.drop number ≠ [] := by
    intro hnil
    rw [List.getElem?_eq_none (List.drop_eq_nil_iff.mp hnil)] at h
    cases h
  obtain ⟨count, hcount, hstays, hend⟩ := DocBlock.exists_end hne
  rw [List.length_drop] at hcount hend
  simp only [List.getElem?_drop] at hstays hend
  refine ⟨number + count, h, Nat.le_add_right _ _, ?_, ?_, hend.imp id ?_⟩
  · simp only
    omega
  · intro other hle hlt
    obtain ⟨index, rfl⟩ := Nat.exists_eq_add_of_le hle
    exact hstays index (Nat.lt_of_add_lt_add_left hlt)
  · intro hall
    simp only
    omega

end Block

/-! ## The division of a text -/

/-- From any line on, the lines have blocks. -/
theorem exists_blocks_from (lines : List (List Char)) (start : Nat) :
    ∃ blocks : List Block, (∀ block ∈ blocks, block.Spans lines ∧ start ≤ block.first) ∧
      (blocks.Pairwise fun block later ↦ block.last < later.first) ∧
      ∀ number, start ≤ number → lines[number]?.any opensDoc →
        ∃ block ∈ blocks, block.Covers number := by
  induction hleft : lines.length - start using Nat.strongRecOn generalizing start with
  | ind left ih =>
    by_cases hopens : lines[start]?.any opensDoc
    · obtain ⟨last, hspans⟩ := Block.exists_spans hopens
      have hordered : start ≤ last := hspans.ordered
      have hin : last < lines.length := hspans.inText
      obtain ⟨blocks, hblocks, hpairwise, hcomplete⟩ := ih _ (by omega) (last + 1) rfl
      refine ⟨⟨start, last⟩ :: blocks, ?_, List.pairwise_cons.mpr ⟨?_, hpairwise⟩, ?_⟩
      · rintro block hblock
        rcases List.mem_cons.mp hblock with rfl | hblock
        · exact ⟨hspans, Nat.le_refl _⟩
        · exact (hblocks block hblock).imp id fun hle ↦ by omega
      · exact fun later hlater ↦ (hblocks later hlater).2
      · intro number hle hnumber
        by_cases hlast : number ≤ last
        · exact ⟨_, List.mem_cons_self, hle, hlast⟩
        · obtain ⟨block, hblock, hcovers⟩ := hcomplete number (Nat.not_le.mp hlast) hnumber
          exact ⟨block, List.mem_cons_of_mem _ hblock, hcovers⟩
    · by_cases hin : start < lines.length
      · obtain ⟨blocks, hblocks, hpairwise, hcomplete⟩ := ih _ (by omega) (start + 1) rfl
        refine ⟨blocks, ?_, hpairwise, ?_⟩
        · exact fun block hblock ↦ (hblocks block hblock).imp id Nat.le_of_succ_le
        · intro number hle hnumber
          have hne : start ≠ number := by
            rintro rfl
            exact hopens hnumber
          exact hcomplete number (Nat.lt_of_le_of_ne hle hne) hnumber
      · refine ⟨[], by simp, .nil, ?_⟩
        intro number hle hnumber
        rw [List.getElem?_eq_none (by omega)] at hnumber
        cases hnumber

theorem exists_divides (lines : List (List Char)) : ∃ blocks, Divides lines blocks := by
  obtain ⟨blocks, hblocks, hpairwise, hcomplete⟩ := exists_blocks_from lines 0
  exact ⟨blocks, fun block hblock ↦ (hblocks block hblock).1, hpairwise,
    fun number ↦ hcomplete number (Nat.zero_le _)⟩

namespace Divides

variable {lines : List (List Char)} {blocks others : List Block} {block other : Block}

theorem areApart (h : Divides lines blocks) : AreApart Block.first (·.last + 1) blocks where
  nonempty block hblock := Nat.lt_succ_of_le (h.spans block hblock).ordered
  ordered := h.ordered

/-- Of two blocks of a text, one ends before the other opens. -/
theorem apart (h : Divides lines blocks) (hblock : block ∈ blocks) (hother : other ∈ blocks)
    (hne : block ≠ other) : block.last < other.first ∨ other.last < block.first :=
  h.areApart.stop_le_or hblock hother hne

/-- The opening line of a block is covered in every division. -/
theorem startIn (h : Divides lines blocks) (hothers : Divides lines others) :
    StartIn Block.first (·.last + 1) blocks others := by
  intro block hblock
  obtain ⟨other, hother, hfirst, hlast⟩ :=
    hothers.complete block.first (h.spans block hblock).opens
  exact ⟨other, hother, hfirst, Nat.lt_succ_of_le hlast⟩

/-- A text has one division. -/
theorem unique (h : Divides lines blocks) (hothers : Divides lines others) : blocks = others := by
  apply h.areApart.eq_of_startIn hothers.areApart (h.startIn hothers) (hothers.startIn h)
  intro block hblock other hother hfirst
  exact (h.spans block hblock).eq_of_first_eq (hothers.spans other hother) hfirst

end Divides

/-- The number of a line once another one is inserted at the boundary above line `boundary`. -/
def moveDown (boundary number : Nat) : Nat :=
  if number < boundary then number else number + 1

section MoveDown

variable {boundary number other : Nat}

theorem moveDown_of_lt (h : number < boundary) : moveDown boundary number = number :=
  if_pos h

theorem moveDown_of_le (h : boundary ≤ number) : moveDown boundary number = number + 1 :=
  if_neg (Nat.not_lt.mpr h)

theorem moveDown_lt_iff : moveDown boundary number < moveDown boundary other ↔ number < other := by
  unfold moveDown
  split <;> split <;> omega

theorem moveDown_le_iff : moveDown boundary number ≤ moveDown boundary other ↔ number ≤ other := by
  rw [← Nat.not_lt, moveDown_lt_iff, Nat.not_lt]

/-- Every line but the inserted one was there before. -/
theorem exists_moveDown (h : number ≠ boundary) : ∃ before, number = moveDown boundary before := by
  rcases Nat.lt_or_gt_of_ne h with hlt | hlt
  · exact ⟨number, (moveDown_of_lt hlt).symm⟩
  · obtain ⟨before, rfl⟩ := Nat.exists_eq_add_one_of_ne_zero (Nat.ne_zero_of_lt hlt)
    exact ⟨before, (moveDown_of_le (Nat.le_of_lt_succ hlt)).symm⟩

variable {lines : List (List Char)}

theorem getElem?_insertIdx_moveDown (boundary : Nat) (lines : List (List Char)) (line : List Char)
    (number : Nat) :
    (lines.insertIdx boundary line)[moveDown boundary number]? = lines[number]? := by
  unfold moveDown
  split
  · rename_i hlt
    exact List.getElem?_insertIdx_of_lt hlt
  · rename_i hge
    rw [List.getElem?_insertIdx_of_gt (by omega), Nat.add_sub_cancel]

theorem getElem?_insertIdx_boundary (h : boundary ≤ lines.length) (line : List Char) :
    (lines.insertIdx boundary line)[boundary]? = some line := by
  rw [List.getElem?_insertIdx_self, if_pos h]

end MoveDown

/-- The boundary is below the first line of the block, and the block goes on there: its last line is
further down, or nothing closes it. -/
structure Block.Encloses (lines : List (List Char)) (block : Block) (boundary : Nat) : Prop where
  below : block.first < boundary
  goesOn : boundary ≤ block.last ∨ lines[block.last]?.any closesDoc = false

def Block.moveDown (boundary : Nat) (block : Block) : Block :=
  ⟨Script.moveDown boundary block.first, Script.moveDown boundary block.last⟩

section Insertion

variable {lines : List (List Char)} {line : List Char} {blocks : List Block} {block : Block}
  {boundary number : Nat}

theorem Block.covers_moveDown_iff :
    (block.moveDown boundary).Covers (Script.moveDown boundary number) ↔ block.Covers number := by
  rw [Covers, Covers, moveDown, moveDown_le_iff, moveDown_le_iff]

/-- A block that does not enclose the boundary is above it and closed, or below it. -/
theorem Block.above_or_below (h : ¬block.Encloses lines boundary) :
    (block.last < boundary ∧ lines[block.last]?.any closesDoc) ∨ boundary ≤ block.first := by
  rcases Nat.lt_or_ge block.first boundary with hlt | hge
  · left
    rcases Nat.lt_or_ge block.last boundary with hlast | hlast
    · refine ⟨hlast, ?_⟩
      by_contra hclosed
      exact h ⟨hlt, .inr (Bool.not_eq_true _ ▸ hclosed)⟩
    · exact absurd ⟨hlt, .inl hlast⟩ h
  · exact .inr hge

theorem Block.not_covers_boundary (houtside : ¬block.Encloses lines boundary) :
    ¬(block.moveDown boundary).Covers boundary := by
  intro hcovers
  have hfirst : Script.moveDown boundary block.first ≤ boundary := hcovers.1
  have hlast : boundary ≤ Script.moveDown boundary block.last := hcovers.2
  rcases above_or_below houtside with ⟨hlt, -⟩ | hle
  · rw [moveDown_of_lt hlt] at hlast
    exact Nat.not_lt.mpr hlast hlt
  · rw [moveDown_of_le hle] at hfirst
    exact Nat.not_lt.mpr hle hfirst

theorem Block.Spans.insertIdx (h : block.Spans lines) (houtside : ¬block.Encloses lines boundary)
    (hle : boundary ≤ lines.length) (line : List Char) :
    (block.moveDown boundary).Spans (lines.insertIdx boundary line) where
  opens := by
    rw [moveDown, getElem?_insertIdx_moveDown]
    exact h.opens
  ordered := moveDown_le_iff.mpr h.ordered
  inText := by
    rw [List.length_insertIdx_of_le_length hle, ← moveDown_of_le hle]
    exact moveDown_lt_iff.mpr h.inText
  stays number hfirst hlast := by
    have hne : number ≠ boundary := by
      rintro rfl
      exact not_covers_boundary houtside ⟨hfirst, Nat.le_of_lt hlast⟩
    obtain ⟨before, rfl⟩ := exists_moveDown hne
    rw [getElem?_insertIdx_moveDown]
    exact h.stays before (moveDown_le_iff.mp hfirst) (moveDown_lt_iff.mp hlast)
  ends := by
    rw [moveDown, getElem?_insertIdx_moveDown, List.length_insertIdx_of_le_length hle]
    rcases above_or_below houtside with ⟨-, hcloses⟩ | hbelow
    · exact .inl hcloses
    · rw [moveDown_of_le (Nat.le_trans hbelow h.ordered)]
      exact h.ends.imp_right (congrArg Nat.succ)

/-- The blocks of the lines that were there before are those of all lines. -/
theorem Divides.insertIdx (h : Divides lines blocks)
    (houtside : ∀ block ∈ blocks, ¬block.Encloses lines boundary) (hle : boundary ≤ lines.length)
    (hopens : opensDoc line = false) :
    Divides (lines.insertIdx boundary line) (blocks.map (Block.moveDown boundary)) where
  spans := by
    rw [List.forall_mem_map]
    exact fun block hblock ↦ (h.spans block hblock).insertIdx (houtside block hblock) hle line
  ordered := by
    rw [List.pairwise_map]
    exact h.ordered.imp fun hlt ↦ moveDown_lt_iff.mpr hlt
  complete number hnumber := by
    have hne : number ≠ boundary := by
      rintro rfl
      rw [getElem?_insertIdx_boundary hle, Option.any_some, hopens] at hnumber
      contradiction
    obtain ⟨before, rfl⟩ := exists_moveDown hne
    rw [getElem?_insertIdx_moveDown] at hnumber
    obtain ⟨block, hblock, hcovers⟩ := h.complete before hnumber
    exact ⟨_, List.mem_map_of_mem hblock, Block.covers_moveDown_iff.mpr hcovers⟩

/-- The inserted line is outside the blocks. -/
theorem forall_not_covers_boundary (houtside : ∀ block ∈ blocks, ¬block.Encloses lines boundary) :
    ∀ block ∈ blocks.map (Block.moveDown boundary), ¬block.Covers boundary := by
  rw [List.forall_mem_map]
  exact fun block hblock ↦ Block.not_covers_boundary (houtside block hblock)

theorem forall_not_covers_moveDown_iff :
    (∀ block ∈ blocks.map (Block.moveDown boundary), ¬block.Covers (moveDown boundary number)) ↔
      ∀ block ∈ blocks, ¬block.Covers number := by
  rw [List.forall_mem_map]
  simp only [Block.covers_moveDown_iff]

end Insertion

end ScriptSense.Script
