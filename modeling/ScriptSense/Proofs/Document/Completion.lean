import Mathlib.Data.List.Forall2
import Mathlib.Data.List.Nodup
import ScriptSense.Document.Outline

/-!
# Items of completion and outline

An item has the name of what it stands for, its kind and its documentation; an item of an outline
also has its place. Completion goes down the declarations of a document and keeps the first of each
name that is not reserved. What it keeps is a part of the declarations in their order, no two of one
name.
-/

namespace ScriptSense

open Script

/-- The word for a kind of symbol. -/
inductive SymbolKind.IsCalled : SymbolKind → String → Prop
  | variable : IsCalled .variable "variable"
  | function : IsCalled .function "function"

theorem SymbolKind.isCalled_iff {kind : SymbolKind} {word : String} :
    kind.IsCalled word ↔ word = kind.name := by
  constructor
  · rintro (_ | _) <;> rfl
  · rintro rfl
    cases kind
    · exact .variable
    · exact .function

/-- The item completes with a reserved name and tells what is fixed about it. -/
structure CompletionItem.OffersReserved (item : CompletionItem) (reserved : Reserved) : Prop where
  label_eq : item.label = reserved.name
  kind_eq : item.kind =
    match reserved.category with
    | .keyword => .keyword
    | .builtin => .function
    | .constant => .constant
  detail_eq : item.detail = some reserved.detail
  documentation_eq : item.documentation = some reserved.description
  insertText_eq : item.insertText =
    match reserved.category with
    | .builtin => some (reserved.name ++ " ")
    | .keyword | .constant => none

/-- The item completes with a declared name, and has the kind and the documentation of the
declaration. -/
structure CompletionItem.OffersDeclared (item : CompletionItem) (occurrence : Occurrence) :
    Prop where
  label_eq : item.label = occurrence.name
  kind_eq : item.kind =
    match occurrence.kind with
    | .variable => .variable
    | .function => .function
  detail_eq : ∃ word, item.detail = some word ∧ occurrence.kind.IsCalled word
  documentation_eq : item.documentation = occurrence.doc
  insertText_eq : item.insertText = none

/-- The item lists a declaration by its name, its kind, and the stretch of the name. -/
structure OutlineItem.Lists (item : OutlineItem) (occurrence : Occurrence) : Prop where
  name_eq : item.name = occurrence.name
  kind_eq : item.kind = occurrence.kind
  uri_eq : item.location.uri = occurrence.uri
  range_eq : item.location.range = Range.onLine occurrence.line occurrence.column
    (occurrence.column + Text.width occurrence.name.toList)

theorem forall₂_map_left {α β : Type} {r : β → α → Prop} {f : α → β} (h : ∀ x, r (f x) x)
    (xs : List α) : List.Forall₂ r (xs.map f) xs :=
  List.forall₂_map_left_iff.mpr (List.forall₂_same.mpr fun x _ ↦ h x)

theorem Script.Reserved.completionItem_offers (reserved : Reserved) :
    reserved.completionItem.OffersReserved reserved where
  label_eq := rfl
  kind_eq := by
    rw [completionItem]
    cases reserved.category <;> rfl
  detail_eq := rfl
  documentation_eq := rfl
  insertText_eq := rfl

theorem Occurrence.completionItem_offers (occurrence : Occurrence) :
    occurrence.completionItem.OffersDeclared occurrence where
  label_eq := rfl
  kind_eq := by
    rw [completionItem]
    cases occurrence.kind <;> rfl
  detail_eq := ⟨_, rfl, SymbolKind.isCalled_iff.mpr rfl⟩
  documentation_eq := rfl
  insertText_eq := rfl

theorem Occurrence.outlineItem_lists (occurrence : Occurrence) :
    occurrence.outlineItem.Lists occurrence :=
  ⟨rfl, rfl, rfl, rfl⟩

variable {seen : List String} {occurrences : List Occurrence} {occurrence : Occurrence}

theorem firstOfEach_sublist (seen : List String) (occurrences : List Occurrence) :
    (firstOfEach seen occurrences).Sublist occurrences := by
  induction occurrences generalizing seen with
  | nil => exact .slnil
  | cons first rest ih =>
    unfold firstOfEach
    split
    · exact (ih seen).cons first
    · exact (ih (first.name :: seen)).cons_cons first

theorem mem_map_name_firstOfEach {name : String} :
    name ∈ (firstOfEach seen occurrences).map Occurrence.name ↔
      name ∈ occurrences.map Occurrence.name ∧ name ∉ seen := by
  induction occurrences generalizing seen with
  | nil => simp [firstOfEach]
  | cons first rest ih =>
    unfold firstOfEach
    split
    · rename_i hfirst
      rw [ih, List.map_cons, List.mem_cons]
      have hseen : first.name ∈ seen := by simpa using hfirst
      grind
    · rename_i hfirst
      rw [List.map_cons, List.mem_cons, ih, List.map_cons, List.mem_cons, List.mem_cons]
      have hseen : first.name ∉ seen := by simpa using hfirst
      grind

theorem nodup_map_name_firstOfEach (seen : List String) (occurrences : List Occurrence) :
    ((firstOfEach seen occurrences).map Occurrence.name).Nodup := by
  induction occurrences generalizing seen with
  | nil => exact List.nodup_nil
  | cons first rest ih =>
    unfold firstOfEach
    split
    · exact ih seen
    · refine List.nodup_cons.mpr ⟨?_, ih (first.name :: seen)⟩
      intro hmem
      exact (mem_map_name_firstOfEach.mp hmem).2 List.mem_cons_self

/-- Of declarations on different lines, the first of each name is kept. -/
theorem mem_firstOfEach_iff (hlines : occurrences.Pairwise fun a b ↦ a.line < b.line) :
    occurrence ∈ firstOfEach seen occurrences ↔ occurrence ∈ occurrences ∧
      occurrence.name ∉ seen ∧
      ∀ other ∈ occurrences, other.name = occurrence.name → occurrence.line ≤ other.line := by
  induction occurrences generalizing seen with
  | nil => simp [firstOfEach]
  | cons first rest ih =>
    obtain ⟨hfirst, hrest⟩ := List.pairwise_cons.mp hlines
    unfold firstOfEach
    split
    · rename_i hcontains
      have hseen : first.name ∈ seen := by simpa using hcontains
      rw [ih hrest]
      grind
    · rename_i hcontains
      have hseen : first.name ∉ seen := by simpa using hcontains
      rw [List.mem_cons, ih hrest]
      grind

end ScriptSense
