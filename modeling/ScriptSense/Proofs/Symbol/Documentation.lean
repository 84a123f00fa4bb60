import ScriptSense.Proofs.Script.Division
import ScriptSense.Proofs.Symbol.Scan
import ScriptSense.Proofs.Text.Trim

/-!
# What a scan records

A scan records the declarations outside the documentation blocks. A declaration is documented by the
block that precedes it, with nothing but blank lines and line comments in between.
-/

namespace ScriptSense

open Text Script

namespace Script

/-- The block is the last thing above the line, apart from blank lines and line comments. -/
structure Block.Precedes (lines : List (List Char)) (block : Block) (number : Nat) : Prop where
  above : block.last < number
  skipped : ∀ between line, block.last < between → between < number →
    lines[between]? = some line → shape line = .blank ∨ shape line = .comment

/-- The text is what a declaration at the line would be documented with. -/
structure IsDocumentation (lines : List (List Char)) (blocks : List Block) (number : Nat)
    (text : String) : Prop where
  ne_empty : text ≠ ""
  source : ∃ block ∈ blocks, block.Precedes lines number ∧
    (DocBlock.collect lines block.first).text = text

theorem shape_eq_docOpening_iff {line : List Char} : shape line = .docOpening ↔ opensDoc line := by
  constructor
  · intro h
    unfold shape at h
    split_ifs at h with _ _ hopens
    · exact hopens
    · split at h
      · cases h
      · split at h <;> cases h
  · intro h
    obtain ⟨rest, hrest⟩ := List.isPrefixOf_iff_prefix.mp h
    have hslash : '/' ∈ line := mem_of_mem_trim (hrest ▸ List.mem_cons_self)
    have hblank : isBlankLine line = false := by
      rw [← Bool.not_eq_true]
      intro hblank
      exact absurd (isBlankLine_iff.mp hblank '/' hslash) (by decide)
    have hcomment : isComment line = false := by
      rw [isComment, ← hrest]
      rfl
    rw [shape, hblank, hcomment, h]
    rfl

theorem DocBlock.pending_eq_some_iff {content : List Char} {text : String} :
    pending content = some text ↔ text ≠ "" ∧ String.ofList content = text := by
  unfold pending
  split
  · rename_i hnil
    simp [hnil, eq_comm]
  · rename_i hne
    rw [Option.some_inj]
    refine ⟨?_, And.right⟩
    rintro rfl
    exact ⟨by simpa using hne, rfl⟩

theorem Block.Spans.collect_eq {lines : List (List Char)} {block : Block}
    (h : block.Spans lines) : DocBlock.collect lines block.first =
      { text := String.ofList (DocBlock.content (block.covered lines))
        lastLine := block.last
        closed := lines[block.last]?.any closesDoc } := by
  have hlength := h.length_covered
  have hordered := h.ordered
  simp only [DocBlock.collect, h.split_drop, h.getLast?_covered, DocBlock.mk.injEq, true_and,
    and_true]
  omega

/-- No block opens between a block and the line that it precedes. -/
theorem Block.Precedes.le_first {lines : List (List Char)} {block other : Block} {number : Nat}
    (h : block.Precedes lines number) (hother : other.Spans lines)
    (hlt : block.last < other.first) : number ≤ other.first := by
  by_contra hnot
  have hopens := hother.opens
  rw [Option.any_eq_true] at hopens
  obtain ⟨line, hline, hopens⟩ := hopens
  have hskipped := h.skipped other.first line hlt (Nat.not_le.mp hnot) hline
  rw [shape_eq_docOpening_iff.mpr hopens] at hskipped
  rcases hskipped with hskipped | hskipped <;> cases hskipped

/-- A line is preceded by at most one block. -/
theorem Divides.eq_of_precedes {lines : List (List Char)} {blocks : List Block}
    (h : Divides lines blocks) {block other : Block} {number : Nat} (hblock : block ∈ blocks)
    (hother : other ∈ blocks) (hprecedes : block.Precedes lines number)
    (hotherPrecedes : other.Precedes lines number) : block = other := by
  have hspans := h.spans block hblock
  have hotherSpans := h.spans other hother
  by_contra hne
  rcases h.apart hblock hother hne with hlt | hlt
  · have hle := Nat.le_trans (hprecedes.le_first hotherSpans hlt) hotherSpans.ordered
    exact Nat.not_lt.mpr hle hotherPrecedes.above
  · have hle := Nat.le_trans (hotherPrecedes.le_first hspans hlt) hspans.ordered
    exact Nat.not_lt.mpr hle hprecedes.above

/-- No block covers a line that another one precedes, unless it opens there. -/
theorem Divides.not_covers_of_precedes {lines : List (List Char)} {blocks : List Block}
    (h : Divides lines blocks) {block other : Block} {number : Nat} {line : List Char}
    (hblock : block ∈ blocks) (hprecedes : block.Precedes lines number)
    (hline : lines[number]? = some line) (hshape : shape line ≠ .docOpening)
    (hother : other ∈ blocks) : ¬other.Covers number := by
  rintro ⟨hfirst, hlast⟩
  have hspans := h.spans other hother
  have habove := hprecedes.above
  have hne : block ≠ other := by
    rintro rfl
    exact Nat.not_lt.mpr hlast habove
  rcases h.apart hblock hother hne with hlt | hlt
  · have hopens := hspans.opens
    rw [Nat.le_antisymm hfirst (hprecedes.le_first hspans hlt), hline] at hopens
    exact hshape (shape_eq_docOpening_iff.mpr hopens)
  · have hordered := (h.spans block hblock).ordered
    omega

/-- What documents a declaration is the text of the block that precedes it. -/
theorem Divides.isDocumentation_iff {lines : List (List Char)} {blocks : List Block}
    (h : Divides lines blocks) {block : Block} {number : Nat} (hblock : block ∈ blocks)
    (hprecedes : block.Precedes lines number) (text : String) :
    IsDocumentation lines blocks number text ↔
      DocBlock.pending (DocBlock.content (block.covered lines)) = some text := by
  have htext : (DocBlock.collect lines block.first).text =
      String.ofList (DocBlock.content (block.covered lines)) := by
    rw [(h.spans block hblock).collect_eq]
  rw [DocBlock.pending_eq_some_iff, ← htext]
  constructor
  · rintro ⟨hne, other, hother, hotherPrecedes, heq⟩
    rw [h.eq_of_precedes hblock hother hprecedes hotherPrecedes]
    exact ⟨hne, heq⟩
  · rintro ⟨hne, heq⟩
    exact ⟨hne, block, hblock, hprecedes, heq⟩

end Script

namespace Symbol

/-- The occurrence is the declaration of a line outside the blocks, with its documentation. -/
structure IsRecorded (uri : String) (lines : List (List Char)) (blocks : List Block)
    (occurrence : Occurrence) : Prop where
  uri_eq : occurrence.uri = uri
  outside : ∀ block ∈ blocks, ¬block.Covers occurrence.line
  declared : ∃ line, lines[occurrence.line]? = some line ∧
    shape line = .declaration occurrence.name occurrence.kind ∧
    occurrence.column = nameColumn line occurrence.name
  doc : ∀ text, occurrence.doc = some text ↔ IsDocumentation lines blocks occurrence.line text

theorem IsRecorded.doc_eq_pending {uri : String} {lines : List (List Char)} {blocks : List Block}
    {occurrence : Occurrence} (h : IsRecorded uri lines blocks occurrence)
    (hdivides : Divides lines blocks) {block : Block} (hblock : block ∈ blocks)
    (hprecedes : block.Precedes lines occurrence.line) :
    occurrence.doc = DocBlock.pending (DocBlock.content (block.covered lines)) := by
  ext text
  rw [h.doc, hdivides.isDocumentation_iff hblock hprecedes]

/-- The occurrences are the reading of the lines from the top, with the given blocks. -/
structure IsReading (uri : String) (lines : List (List Char)) (blocks : List Block)
    (occurrences : List Occurrence) : Prop where
  increasing : occurrences.Pairwise fun earlier later ↦ earlier.line < later.line
  mem_iff : ∀ occurrence, occurrence ∈ occurrences ↔ IsRecorded uri lines blocks occurrence
  declared : ∀ number line name kind, lines[number]? = some line →
    (∀ block ∈ blocks, ¬block.Covers number) → shape line = .declaration name kind →
    ∃! occurrence, occurrence ∈ occurrences ∧ occurrence.line = number
  collected : ∀ block ∈ blocks, DocBlock.collect lines block.first =
    { text := String.ofList (DocBlock.content (block.covered lines))
      lastLine := block.last
      closed := lines[block.last]?.any closesDoc }
  attached : ∀ block ∈ blocks, ∀ first ∈ occurrences, ∀ second ∈ occurrences,
    block.Precedes lines first.line → block.Precedes lines second.line → first = second

/-! ## What is known at a line -/

/-- The scan has come to a line that no block covers together with the one above it, and what
documents a declaration at this line is pending. -/
structure Reaches (lines : List (List Char)) (blocks : List Block) (number : Nat)
    (pending : Option String) : Prop where
  between : ∀ block ∈ blocks, block.last < number ∨ number ≤ block.first
  pending_iff : ∀ text, pending = some text ↔ IsDocumentation lines blocks number text

namespace Reaches

variable {lines : List (List Char)} {blocks : List Block} {number : Nat} {pending : Option String}
  {line : List Char} {block : Block}

theorem start (lines : List (List Char)) (blocks : List Block) : Reaches lines blocks 0 none where
  between block _ := .inr (Nat.zero_le _)
  pending_iff text := by
    refine ⟨by simp, fun h ↦ ?_⟩
    obtain ⟨block, -, hprecedes, -⟩ := h.source
    exact absurd hprecedes.above (Nat.not_lt_zero _)

theorem not_covers (h : Reaches lines blocks number pending) (hdivides : Divides lines blocks)
    (hline : lines[number]? = some line) (hshape : shape line ≠ .docOpening)
    (hblock : block ∈ blocks) : ¬block.Covers number := by
  rintro ⟨hfirst, hlast⟩
  have hopens := (hdivides.spans block hblock).opens
  have heq : block.first = number := by
    rcases h.between block hblock with hlt | hle
    · omega
    · exact Nat.le_antisymm hfirst hle
  rw [heq, hline] at hopens
  exact hshape (shape_eq_docOpening_iff.mpr hopens)

theorem between_succ (h : Reaches lines blocks number pending) (hdivides : Divides lines blocks)
    (hline : lines[number]? = some line) (hshape : shape line ≠ .docOpening) :
    ∀ block ∈ blocks, block.last < number + 1 ∨ number + 1 ≤ block.first := by
  intro block hblock
  have hnot := h.not_covers hdivides hline hshape hblock
  have hordered := (hdivides.spans block hblock).ordered
  unfold Block.Covers at hnot
  omega

/-- A block that precedes the next line precedes this one, unless it covers it. -/
theorem precedes_of_succ (h : Reaches lines blocks number pending)
    (hdivides : Divides lines blocks) (hline : lines[number]? = some line)
    (hshape : shape line ≠ .docOpening) (hblock : block ∈ blocks)
    (hprecedes : block.Precedes lines (number + 1)) : block.last < number := by
  have hnot := h.not_covers hdivides hline hshape hblock
  have hordered := (hdivides.spans block hblock).ordered
  have habove := hprecedes.above
  have hbetween := h.between block hblock
  unfold Block.Covers at hnot
  omega

/-- Blank lines and line comments leave the documentation pending. -/
theorem skip (h : Reaches lines blocks number pending) (hdivides : Divides lines blocks)
    (hline : lines[number]? = some line) (hshape : shape line = .blank ∨ shape line = .comment) :
    Reaches lines blocks (number + 1) pending where
  between := by
    apply h.between_succ hdivides hline
    rcases hshape with hshape | hshape <;> simp [hshape]
  pending_iff text := by
    have hnot : shape line ≠ .docOpening := by
      rcases hshape with hshape | hshape <;> simp [hshape]
    rw [h.pending_iff]
    constructor
    · rintro ⟨hne, block, hblock, ⟨habove, hskipped⟩, htext⟩
      refine ⟨hne, block, hblock, ⟨Nat.lt_succ_of_lt habove, ?_⟩, htext⟩
      intro between other hlast hnumber hother
      rcases Nat.lt_succ_iff_lt_or_eq.mp hnumber with hlt | rfl
      · exact hskipped between other hlast hlt hother
      · obtain rfl := Option.some.inj (hline.symm.trans hother)
        exact hshape
    · rintro ⟨hne, block, hblock, hprecedes, htext⟩
      have habove := h.precedes_of_succ hdivides hline hnot hblock hprecedes
      refine ⟨hne, block, hblock, ⟨habove, ?_⟩, htext⟩
      intro between other hlast hnumber hother
      exact hprecedes.skipped between other hlast (Nat.lt_succ_of_lt hnumber) hother

/-- Any other line that opens no block leaves nothing pending. -/
theorem discard (h : Reaches lines blocks number pending) (hdivides : Divides lines blocks)
    (hline : lines[number]? = some line) (hopening : shape line ≠ .docOpening)
    (hblank : shape line ≠ .blank) (hcomment : shape line ≠ .comment) :
    Reaches lines blocks (number + 1) none where
  between := h.between_succ hdivides hline hopening
  pending_iff text := by
    refine ⟨by simp, ?_⟩
    rintro ⟨-, block, hblock, hprecedes, -⟩
    have habove := h.precedes_of_succ hdivides hline hopening hblock hprecedes
    rcases hprecedes.skipped number line habove (Nat.lt_succ_self _) hline with hshape | hshape
    · exact absurd hshape hblank
    · exact absurd hshape hcomment

/-- After a block its own text is pending. -/
theorem collect (h : Reaches lines blocks number pending) (hdivides : Divides lines blocks)
    (hline : lines[number]? = some line) (hshape : shape line = .docOpening) :
    ∃ block ∈ blocks, block.first = number ∧ Reaches lines blocks (block.last + 1)
      (DocBlock.pending (DocBlock.content (block.covered lines))) := by
  have hopens : lines[number]?.any opensDoc := by
    rw [hline]
    exact shape_eq_docOpening_iff.mp hshape
  obtain ⟨block, hblock, hcovers⟩ := hdivides.complete number hopens
  have hfirst : block.first = number := by
    obtain ⟨hle, hlast⟩ := hcovers
    have hbetween := h.between block hblock
    omega
  have hspans := hdivides.spans block hblock
  have hprecedes : block.Precedes lines (block.last + 1) := by
    refine ⟨Nat.lt_succ_self _, ?_⟩
    intro between _ hlast hnumber
    omega
  refine ⟨block, hblock, hfirst, ?_, ?_⟩
  · intro other hother
    by_cases hsame : other = block
    · exact .inl (hsame ▸ Nat.lt_succ_self _)
    · have hordered := hspans.ordered
      have hotherOrdered := (hdivides.spans other hother).ordered
      rcases hdivides.apart hother hblock hsame with hlt | hlt <;> omega
  · exact fun text ↦ (hdivides.isDocumentation_iff hblock hprecedes text).symm

end Reaches

/-! ## The whole scan -/

theorem mem_scanFrom_iff {all lines : List (List Char)} {blocks : List Block} {uri : String}
    {number : Nat} {pending : Option String} (hdivides : Divides all blocks)
    (h : all.drop number = lines) (hreaches : Reaches all blocks number pending)
    (occurrence : Occurrence) :
    occurrence ∈ scanFrom uri number pending lines ↔
      number ≤ occurrence.line ∧ IsRecorded uri all blocks occurrence := by
  -- A line that declares nothing has no occurrence, so the rest of the scan starts below it.
  have hbelow {line : List Char} {number : Nat} (hline : all[number]? = some line)
      (hshape : ∀ name kind, shape line ≠ .declaration name kind) :
      number + 1 ≤ occurrence.line ∧ IsRecorded uri all blocks occurrence ↔
        number ≤ occurrence.line ∧ IsRecorded uri all blocks occurrence := by
    refine and_congr_left fun hrecorded ↦ ⟨Nat.le_of_succ_le, fun hle ↦ ?_⟩
    apply Nat.lt_of_le_of_ne hle
    rintro rfl
    obtain ⟨other, hother, hdeclared, -⟩ := hrecorded.declared
    obtain rfl := Option.some.inj (hline.symm.trans hother)
    exact hshape _ _ hdeclared
  fun_induction scanFrom uri number pending lines with
  | case1 number pending =>
    have hlength := List.drop_eq_nil_iff.mp h
    refine ⟨by simp, ?_⟩
    rintro ⟨hle, hrecorded⟩
    obtain ⟨line, hline, -⟩ := hrecorded.declared
    have hin := (List.getElem?_eq_some_iff.mp hline).1
    omega
  | case2 number pending line rest hshape inside ih =>
    obtain ⟨block, hblock, rfl, hnext⟩ := hreaches.collect hdivides (getElem?_of_drop h) hshape
    have hspans := hdivides.spans block hblock
    have hsplit := hspans.split_drop
    rw [h] at hsplit
    have hinside : inside = block.covered all := congrArg Prod.fst hsplit
    have hlength : block.first + inside.length = block.last + 1 := by
      rw [hinside, hspans.length_covered]
    rw [hlength, hsplit, hinside] at ih
    rw [hlength, hsplit, hinside]
    refine (ih rfl hnext).trans (and_congr_left fun hrecorded ↦ ?_)
    have houtside := hrecorded.outside block hblock
    have hordered := hspans.ordered
    unfold Block.Covers at houtside
    omega
  | case3 number pending line rest name kind hshape ih =>
    have hline := getElem?_of_drop h
    have hnext := hreaches.discard hdivides hline (by simp [hshape]) (by simp [hshape])
      (by simp [hshape])
    refine List.mem_cons.trans ((or_congr_right (ih (drop_succ h) hnext)).trans ?_)
    constructor
    · rintro (rfl | ⟨hle, hrecorded⟩)
      · refine ⟨Nat.le_refl _, rfl, ?_, ⟨line, hline, hshape, rfl⟩, hreaches.pending_iff⟩
        exact fun block ↦ hreaches.not_covers hdivides hline (by simp [hshape])
      · exact ⟨Nat.le_of_succ_le hle, hrecorded⟩
    · rintro ⟨hle, hrecorded⟩
      rcases Nat.lt_or_eq_of_le hle with hlt | rfl
      · exact .inr ⟨hlt, hrecorded⟩
      · left
        obtain ⟨other, hother, hdeclared, hcolumn⟩ := hrecorded.declared
        obtain rfl := Option.some.inj (hline.symm.trans hother)
        obtain ⟨rfl, rfl⟩ := Shape.declaration.inj (hshape.symm.trans hdeclared)
        have hdoc : occurrence.doc = pending := by
          ext text
          rw [hrecorded.doc, hreaches.pending_iff]
        have huri := hrecorded.uri_eq
        cases occurrence
        simp_all
  | case4 number pending line rest hshape ih =>
    have hline := getElem?_of_drop h
    have hnext := hreaches.discard hdivides hline (by simp [hshape]) (by simp [hshape])
      (by simp [hshape])
    exact (ih (drop_succ h) hnext).trans (hbelow hline (by simp [hshape]))
  | case5 number pending line rest hshape ih =>
    have hline := getElem?_of_drop h
    have hnext := hreaches.skip hdivides hline (.inl hshape)
    exact (ih (drop_succ h) hnext).trans (hbelow hline (by simp [hshape]))
  | case6 number pending line rest hshape ih =>
    have hline := getElem?_of_drop h
    have hnext := hreaches.skip hdivides hline (.inr hshape)
    exact (ih (drop_succ h) hnext).trans (hbelow hline (by simp [hshape]))

theorem mem_scan_iff {uri text : String} {blocks : List Block}
    (h : Divides (lines text) blocks) (occurrence : Occurrence) :
    occurrence ∈ scan uri text ↔ IsRecorded uri (lines text) blocks occurrence := by
  rw [scan, mem_scanFrom_iff h List.drop_zero (Reaches.start _ _)]
  exact and_iff_right (Nat.zero_le _)

/-- A declaration ends what a block can document. -/
theorem not_lt_of_precedes {uri : String} {lines : List (List Char)} {blocks : List Block}
    {block : Block} {first second : Occurrence} (hrecorded : IsRecorded uri lines blocks first)
    (hfirst : block.Precedes lines first.line) (hsecond : block.Precedes lines second.line) :
    ¬first.line < second.line := by
  intro hlt
  obtain ⟨line, hline, hshape, -⟩ := hrecorded.declared
  have hskipped := hsecond.skipped first.line line hfirst.above hlt hline
  rw [hshape] at hskipped
  rcases hskipped with hskipped | hskipped <;> cases hskipped

theorem exists_doc {lines : List (List Char)} {blocks : List Block} (h : Divides lines blocks)
    (number : Nat) :
    ∃ doc : Option String, ∀ text, doc = some text ↔ IsDocumentation lines blocks number text := by
  by_cases hdoc : ∃ text, IsDocumentation lines blocks number text
  · obtain ⟨text, htext⟩ := hdoc
    refine ⟨some text, fun other ↦ ?_⟩
    rw [Option.some_inj]
    constructor
    · rintro rfl
      exact htext
    · intro hother
      obtain ⟨block, hblock, hprecedes, rfl⟩ := htext.source
      obtain ⟨second, hsecond, hsecondPrecedes, rfl⟩ := hother.source
      rw [h.eq_of_precedes hblock hsecond hprecedes hsecondPrecedes]
  · refine ⟨none, fun text ↦ ?_⟩
    exact ⟨by simp, fun htext ↦ absurd ⟨text, htext⟩ hdoc⟩

/-- A text has one division into blocks and other lines. A scan records the declarations outside the
blocks, one for each line and in the order of the lines, and documents each of them with the text of
the block that precedes it, if there is such a block and its text is not empty. -/
theorem scan_reads_blocks (uri text : String) :
    ∃ blocks, (∀ others, Divides (lines text) others ↔ others = blocks) ∧
      IsReading uri (lines text) blocks (scan uri text) := by
  obtain ⟨blocks, hdivides⟩ := exists_divides (lines text)
  have hmem : ∀ occurrence, occurrence ∈ scan uri text ↔
      IsRecorded uri (lines text) blocks occurrence := mem_scan_iff hdivides
  have hincreasing := pairwise_line_scan uri text
  refine ⟨blocks, fun others ↦ ⟨fun hothers ↦ hothers.unique hdivides, ?_⟩, hincreasing, hmem,
    ?_, fun block hblock ↦ (hdivides.spans block hblock).collect_eq, ?_⟩
  · rintro rfl
    exact hdivides
  · intro number line name kind hline houtside hshape
    obtain ⟨doc, hdoc⟩ := exists_doc hdivides number
    have hrecorded : IsRecorded uri (lines text) blocks
        ⟨name, kind, uri, number, nameColumn line name, doc⟩ :=
      ⟨rfl, houtside, ⟨line, hline, hshape, rfl⟩, hdoc⟩
    refine ⟨_, ⟨(hmem _).mpr hrecorded, rfl⟩, ?_⟩
    rintro other ⟨hother, hnumber⟩
    exact eq_of_line_eq hincreasing hother ((hmem _).mpr hrecorded) hnumber
  · intro block hblock first hfirst second hsecond hprecedes hsecondPrecedes
    apply eq_of_line_eq hincreasing hfirst hsecond
    have hle := not_lt_of_precedes ((hmem first).mp hfirst) hprecedes hsecondPrecedes
    have hge := not_lt_of_precedes ((hmem second).mp hsecond) hsecondPrecedes hprecedes
    exact Nat.le_antisymm (Nat.not_lt.mp hge) (Nat.not_lt.mp hle)

end Symbol

end ScriptSense
