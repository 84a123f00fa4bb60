import Mathlib.Data.List.Basic
import Mathlib.Data.List.Dedup
import Mathlib.Data.List.Perm.Basic
import ScriptSense.Proofs.Symbol.Grouping
import ScriptSense.Proofs.Symbol.Scan
import ScriptSense.Symbol.Index

/-!
# What an index answers

Every question that an index answers has an answer on the log that the index groups: a lookup is a
filter, the names are those of the log without repetition, and the occurrences of all names together
are a rearrangement of the log. An outline is such a rearrangement, sorted by position. The sort is
stable, so that occurrences of one name and position keep the order of the log; how it places
occurrences of different names at one position is a choice.

The operations that change an index have plain counterparts on a list of occurrences: insertion
appends, removal filters, and replacement filters and then appends. The groups invariant goes from
one operation to the next, so after any sequence of operations the index answers as the list does.
-/

namespace ScriptSense.Symbol

/-- A stable sort leaves occurrences alone that are all in order with each other. -/
theorem filter_mergeSort {α : Type} {le : α → α → Bool}
    (trans : ∀ a b c, le a b → le b c → le a c) (total : ∀ a b, le a b || le b a)
    {p : α → Bool} (h : ∀ a b, p a → p b → le a b) (xs : List α) :
    (xs.mergeSort le).filter p = xs.filter p := by
  have hordered : (xs.filter p).Pairwise (le · ·) := by
    apply List.pairwise_of_forall_mem_list
    intro a ha b hb
    exact h a b (List.mem_filter.mp ha).2 (List.mem_filter.mp hb).2
  have hsub : List.Sublist ((xs.filter p).filter p) ((xs.mergeSort le).filter p) :=
    (List.sublist_mergeSort trans total hordered List.filter_sublist).filter p
  rw [List.filter_filter] at hsub
  simp only [Bool.and_self] at hsub
  have hperm := (List.mergeSort_perm xs le).filter p
  exact (hsub.eq_of_length hperm.length_eq.symm).symm

/-- The order of two occurrences by line and then by column. -/
def positionPrecedes (a b : Occurrence) : Bool :=
  a.line < b.line || (a.line == b.line && a.column ≤ b.column)

theorem positionPrecedes_iff {a b : Occurrence} :
    positionPrecedes a b ↔ a.line < b.line ∨ a.line = b.line ∧ a.column ≤ b.column := by
  simp [positionPrecedes]

theorem positionPrecedes_trans (a b c : Occurrence) (hab : positionPrecedes a b)
    (hbc : positionPrecedes b c) : positionPrecedes a c := by
  rw [positionPrecedes_iff] at *
  omega

theorem positionPrecedes_total (a b : Occurrence) :
    positionPrecedes a b || positionPrecedes b a := by
  rw [Bool.or_eq_true, positionPrecedes_iff, positionPrecedes_iff]
  omega

/-- The occurrences from `uri` by position, those at one position in the order of the names. -/
def Index.byPosition (index : Index) (uri : String) : List Occurrence :=
  (index.occurrences.filter (·.uri == uri)).mergeSort positionPrecedes

theorem precedes_iff {a b : Occurrence} :
    precedes a b ↔ a.line < b.line ∨
      a.line = b.line ∧ (a.column < b.column ∨ a.column = b.column ∧ a.name ≤ b.name) := by
  unfold precedes
  split
  · rename_i hline
    simp [hline]
  · rename_i hline
    split
    · rename_i hcolumn
      simp [Decidable.not_not.mp hline, hcolumn]
    · rename_i hcolumn
      simp [Decidable.not_not.mp hline, Decidable.not_not.mp hcolumn]

theorem precedes_trans (a b c : Occurrence) (hab : precedes a b) (hbc : precedes b c) :
    precedes a c := by
  rw [precedes_iff] at *
  rcases hab with hab | ⟨hline, hab | ⟨hcolumn, hab⟩⟩
  · left
    omega
  · rw [hline]
    exact hbc.imp_right fun h ↦ ⟨h.1, .inl (by omega)⟩
  · rw [hline, hcolumn]
    exact hbc.imp_right fun h ↦ ⟨h.1, h.2.imp_right fun h ↦ ⟨h.1, String.le_trans hab h.2⟩⟩

theorem precedes_total (a b : Occurrence) : precedes a b || precedes b a := by
  rw [Bool.or_eq_true, precedes_iff, precedes_iff]
  rcases Nat.lt_trichotomy a.line b.line with hline | hline | hline
  · exact .inl (.inl hline)
  · rcases Nat.lt_trichotomy a.column b.column with hcolumn | hcolumn | hcolumn
    · exact .inl (.inr ⟨hline, .inl hcolumn⟩)
    · rcases String.le_total a.name b.name with hname | hname
      · exact .inl (.inr ⟨hline, .inr ⟨hcolumn, hname⟩⟩)
      · exact .inr (.inr ⟨hline.symm, .inr ⟨hcolumn.symm, hname⟩⟩)
    · exact .inr (.inr ⟨hline.symm, .inl hcolumn⟩)
  · exact .inr (.inl hline)

theorem positionPrecedes_of_precedes {a b : Occurrence} (h : precedes a b) :
    positionPrecedes a b := by
  rw [precedes_iff] at h
  rw [positionPrecedes_iff]
  omega

/-- The occurrences of `log` from `uri` in the order of their positions. -/
structure IsOutline (log : List Occurrence) (uri : String) (outline : List Occurrence) : Prop where
  perm : outline.Perm (log.filter (·.uri == uri))
  sorted : outline.Pairwise fun a b ↦ a.line < b.line ∨ a.line = b.line ∧ a.column ≤ b.column
  stable : ∀ name line column,
    (outline.filter fun a ↦ a.name == name && (a.line == line && a.column == column)) =
      (log.filter (·.uri == uri)).filter fun a ↦
        a.name == name && (a.line == line && a.column == column)

/-- Occurrences that stand on lines of their own have one order down the lines. -/
theorem eq_of_perm_of_sorted {listing occurrences : List Occurrence}
    (hperm : listing.Perm occurrences) (hsorted : listing.Pairwise fun a b ↦ a.line ≤ b.line)
    (hlines : occurrences.Pairwise fun a b ↦ a.line < b.line) : listing = occurrences := by
  apply hperm.eq_of_pairwise _ hsorted (hlines.imp Nat.le_of_lt)
  intro a b ha hb hab hba
  exact eq_of_line_eq hlines (hperm.mem_iff.mp ha) hb (Nat.le_antisymm hab hba)

theorem IsOutline.eq_filter {log outline : List Occurrence} {uri : String}
    (h : IsOutline log uri outline)
    (hlines : (log.filter (·.uri == uri)).Pairwise fun a b ↦ a.line < b.line) :
    outline = log.filter (·.uri == uri) := by
  refine eq_of_perm_of_sorted h.perm (h.sorted.imp fun {a b} hposition ↦ ?_) hlines
  omega

/-- The index answers every question as the log does. -/
structure Answers (index : Index) (log : List Occurrence) : Prop where
  lookup : ∀ name, index.lookup name = log.filter (·.name == name)
  declares : ∀ name uri, index.declares name uri ↔
    ∃ occurrence ∈ log, occurrence.name = name ∧ occurrence.uri = uri
  names_nodup : index.names.Nodup
  mem_names : ∀ name, name ∈ index.names ↔ ∃ occurrence ∈ log, occurrence.name = name
  size : index.size = (log.map Occurrence.name).dedup.length
  isEmpty : index.isEmpty ↔ log = []
  occurrenceCount : index.occurrenceCount = log.length
  removalCount : ∀ uri,
    (log.filter (·.uri != uri)).length + index.removalCount uri = log.length
  document : ∀ uri, IsOutline log uri (index.document uri)
  byPosition : ∀ entries : List Entry, entries.Perm index.entries →
    ∀ uri, IsOutline log uri (Index.byPosition ⟨entries⟩ uri)

theorem flatMap_ite_eq {α β : Type} [DecidableEq α] {keys : List α} (nodup : keys.Nodup)
    (key : α) (values : List β) :
    (keys.flatMap fun k ↦ if k = key then values else []) = if key ∈ keys then values else [] := by
  induction keys with
  | nil => simp
  | cons k rest ih =>
    obtain ⟨hfresh, hrest⟩ := List.nodup_cons.mp nodup
    rw [List.flatMap_cons, ih hrest]
    by_cases heq : k = key
    · subst heq
      simp [hfresh]
    · simp [heq, Ne.symm heq]

namespace Groups

variable {index : Index} {log : List Occurrence}

theorem lookup_eq (h : Groups index log) (name : String) :
    index.lookup name = log.filter (·.name == name) := by
  unfold Index.lookup
  cases hfind : index.entries.find? (·.name == name) with
  | none =>
    have hname : name ∉ index.names := by
      intro hmem
      obtain ⟨entry, hentry, hname⟩ := List.mem_map.mp hmem
      exact List.find?_eq_none.mp hfind entry hentry (by simpa using hname)
    exact (h.filter_eq_nil hname).symm
  | some entry =>
    have hname : entry.name = name := by simpa using List.find?_some hfind
    have hmem := List.mem_of_find?_eq_some hfind
    change entry.occurrences = _
    rw [h.occurrences_eq entry hmem, hname]

theorem declares_iff (h : Groups index log) (name uri : String) :
    index.declares name uri ↔
      ∃ occurrence ∈ log, occurrence.name = name ∧ occurrence.uri = uri := by
  rw [Index.declares, h.lookup_eq]
  simp

/-- Among the occurrences of all names, those of one name come as they do in the log. -/
theorem filter_occurrences (h : Groups index log) (name : String) :
    index.occurrences.filter (·.name == name) = log.filter (·.name == name) := by
  have hentry (entry : Entry) (hmem : entry ∈ index.entries) :
      entry.occurrences.filter (·.name == name) =
        if entry.name = name then log.filter (·.name == name) else [] := by
    rw [h.occurrences_eq entry hmem, List.filter_filter]
    split
    · rename_i heq
      simp [heq]
    · rename_i hne
      rw [List.filter_eq_nil_iff]
      intro occurrence _ hboth
      simp only [Bool.and_eq_true, beq_iff_eq] at hboth
      exact hne (hboth.2.symm.trans hboth.1)
  calc
    _ = index.entries.flatMap fun entry ↦ entry.occurrences.filter (·.name == name) := by
      rw [Index.occurrences, List.filter_flatMap]
    _ = index.names.flatMap fun k ↦ if k = name then log.filter (·.name == name) else [] := by
      rw [Index.names, List.flatMap_map]
      exact List.flatMap_congr hentry
    _ = if name ∈ index.names then log.filter (·.name == name) else [] :=
      flatMap_ite_eq h.nodup name _
    _ = _ := by
      split
      · rfl
      · rename_i hname
        exact (h.filter_eq_nil hname).symm

theorem occurrences_perm (h : Groups index log) : index.occurrences.Perm log := by
  rw [List.perm_iff_count]
  intro occurrence
  have hcount (xs : List Occurrence) :
      xs.count occurrence = (xs.filter (·.name == occurrence.name)).count occurrence :=
    (List.count_filter (by simp)).symm
  rw [hcount index.occurrences, hcount log, h.filter_occurrences]

theorem size_eq (h : Groups index log) :
    index.size = (log.map Occurrence.name).dedup.length := by
  have hperm : index.names.Perm (log.map Occurrence.name).dedup := by
    rw [List.perm_ext_iff_of_nodup h.nodup (List.nodup_dedup _)]
    intro name
    rw [List.mem_dedup, List.mem_map, h.mem_names]
  rw [← hperm.length_eq, Index.names, List.length_map, Index.size]

theorem isEmpty_iff (h : Groups index log) : index.isEmpty ↔ log = [] := by
  rw [Index.isEmpty, List.isEmpty_iff]
  constructor
  · intro hnil
    have hlog := h.occurrences_perm
    rw [Index.occurrences, hnil] at hlog
    exact hlog.symm.eq_nil
  · intro hlog
    have hnames : index.names = [] := by
      apply List.eq_nil_iff_forall_not_mem.mpr
      intro name hname
      rw [h.mem_names, hlog] at hname
      simp at hname
    exact List.map_eq_nil_iff.mp hnames

theorem length_filter_add_removalCount (h : Groups index log) (uri : String) :
    (log.filter (·.uri != uri)).length + index.removalCount uri = log.length := by
  have hkept : log.countP (·.uri != uri) = log.countP fun a ↦ ¬(a.uri == uri) := by
    apply List.countP_congr
    intro a _
    simp
  rw [Index.removalCount, h.occurrences_perm.countP_eq, ← List.countP_eq_length_filter, hkept,
    Nat.add_comm, ← List.length_eq_countP_add_countP]

/-- A sort by position that is stable gives an outline. -/
theorem isOutline_mergeSort (h : Groups index log) (uri : String)
    {le : Occurrence → Occurrence → Bool} (trans : ∀ a b c, le a b → le b c → le a c)
    (total : ∀ a b, le a b || le b a) (hposition : ∀ a b, le a b → positionPrecedes a b)
    (hname : ∀ a b, a.name = b.name → positionPrecedes a b → le a b) :
    IsOutline log uri ((index.occurrences.filter (·.uri == uri)).mergeSort le) where
  perm := (List.mergeSort_perm _ _).trans (h.occurrences_perm.filter _)
  sorted := (List.pairwise_mergeSort trans total _).imp fun hle ↦
    positionPrecedes_iff.mp (hposition _ _ hle)
  stable name line column := by
    have hle (a b : Occurrence)
        (ha : a.name == name && (a.line == line && a.column == column))
        (hb : b.name == name && (b.line == line && b.column == column)) : le a b := by
      simp only [Bool.and_eq_true, beq_iff_eq] at ha hb
      apply hname a b (ha.1.trans hb.1.symm)
      rw [positionPrecedes_iff]
      omega
    have hsplit (xs : List Occurrence) :
        ((xs.filter (·.uri == uri)).filter fun a ↦
            a.name == name && (a.line == line && a.column == column)) =
          (xs.filter (·.name == name)).filter fun a ↦
            (a.line == line && a.column == column) && a.uri == uri := by
      rw [List.filter_filter, List.filter_filter]
      apply List.filter_congr
      intro a _
      ac_rfl
    rw [filter_mergeSort trans total hle, hsplit, hsplit, h.filter_occurrences]

theorem isOutline_document (h : Groups index log) (uri : String) :
    IsOutline log uri (index.document uri) := by
  apply h.isOutline_mergeSort uri precedes_trans precedes_total
  · exact fun a b ↦ positionPrecedes_of_precedes
  · intro a b hname hposition
    rw [positionPrecedes_iff] at hposition
    rw [precedes_iff, hname]
    rcases hposition with hline | ⟨hline, hcolumn⟩
    · exact .inl hline
    · exact .inr ⟨hline, (Nat.lt_or_eq_of_le hcolumn).imp_right fun h ↦ ⟨h, String.le_refl _⟩⟩

theorem isOutline_byPosition (h : Groups index log) (uri : String) :
    IsOutline log uri (index.byPosition uri) :=
  h.isOutline_mergeSort uri positionPrecedes_trans positionPrecedes_total
    (fun _ _ hposition ↦ hposition) (fun _ _ _ hposition ↦ hposition)

theorem answers (h : Groups index log) : Answers index log where
  lookup := h.lookup_eq
  declares := h.declares_iff
  names_nodup := h.nodup
  mem_names := h.mem_names
  size := h.size_eq
  isEmpty := h.isEmpty_iff
  occurrenceCount := h.occurrences_perm.length_eq
  removalCount := h.length_filter_add_removalCount
  document := h.isOutline_document
  byPosition _ hperm := (h.reorder hperm).isOutline_byPosition

end Groups

/-- One change of an index. -/
inductive Operation
  | insert (occurrence : Occurrence)
  | remove (uri : String)
  | replace (uri : String) (occurrences : List Occurrence)
  | reindex (uri text : String)
  deriving DecidableEq, Repr

def Index.perform (index : Index) : Operation → Index
  | .insert occurrence => index.insert occurrence
  | .remove uri => index.remove uri
  | .replace uri occurrences => index.replace uri occurrences
  | .reindex uri text => index.reindex uri text

/-- The same change of a flat log. -/
def record (log : List Occurrence) : Operation → List Occurrence
  | .insert occurrence => log ++ [occurrence]
  | .remove uri => log.filter (·.uri != uri)
  | .replace uri occurrences => log.filter (·.uri != uri) ++ occurrences
  | .reindex uri text => log.filter (·.uri != uri) ++ scan uri text

theorem Groups.perform {index : Index} {log : List Occurrence} (h : Groups index log)
    (operation : Operation) : Groups (index.perform operation) (record log operation) := by
  cases operation with
  | insert occurrence => exact h.insert occurrence
  | remove uri => exact h.remove uri
  | replace uri occurrences => exact h.replace uri occurrences
  | reindex uri text => exact h.reindex uri text

theorem Groups.perform_all {index : Index} {log : List Occurrence} (h : Groups index log)
    (operations : List Operation) :
    Groups (operations.foldl Index.perform index) (operations.foldl record log) := by
  induction operations generalizing index log with
  | nil => exact h
  | cons operation rest ih => exact ih (h.perform operation)

/-- After any operations the index answers as the flat log of the same operations, and bringing a
document up to date is replacing its occurrences by those of a scan. -/
theorem performed_answers_recorded (operations : List Operation) :
    Answers (operations.foldl Index.perform Index.empty) (operations.foldl record []) ∧
      ∀ (index : Index) (uri text : String),
        index.reindex uri text = index.replace uri (scan uri text) := by
  refine ⟨(Groups.empty.perform_all operations).answers, ?_⟩
  intro index uri text
  rfl

end ScriptSense.Symbol
