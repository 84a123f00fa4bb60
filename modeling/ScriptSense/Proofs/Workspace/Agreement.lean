import ScriptSense.Proofs.Diagnostic.Place
import ScriptSense.Proofs.Document.Completion
import ScriptSense.Proofs.Workspace.Reports

/-!
# Completion agrees with the reports

Completion offers the reserved names and the names that a document declares; a report warns about
the names that are neither. Completion goes through all declarations of the document, and a report
looks up one name after the other. The index answers both with the declarations of the text that the
document has now.
-/

namespace ScriptSense

open Text Script

/-- The items offer all reserved names, in their order, and after them the first declaration of each
other name that the text declares, in the order of the lines. No two have the same label. -/
structure CompletesWith (uri text : String) (items : List CompletionItem) : Prop where
  offers : ∃ (firsts : List Occurrence) (fixed declared : List CompletionItem),
    items = fixed ++ declared ∧
    List.Forall₂ CompletionItem.OffersReserved fixed reservedNames ∧
    List.Forall₂ CompletionItem.OffersDeclared declared firsts ∧
    (firsts.Pairwise fun a b ↦ a.line < b.line) ∧
    ∀ occurrence, occurrence ∈ firsts ↔ occurrence ∈ Symbol.scan uri text ∧
      isReserved occurrence.name = false ∧
      ∀ other ∈ Symbol.scan uri text, other.name = occurrence.name → occurrence.line ≤ other.line
  nodup : (items.map CompletionItem.label).Nodup

theorem Script.isReserved_iff {name : String} :
    isReserved name ↔ name ∈ reservedNames.map Reserved.name := by
  rw [isReserved, reserved?, List.find?_isSome, List.mem_map]
  simp

theorem Script.nodup_reservedNames : (reservedNames.map Reserved.name).Nodup := by
  decide

section Completion

variable {index : Symbol.Index} {documents : Documents} {uri text : String}

theorem completions_eq_nil (h : documents.get? uri = none) :
    completions index documents uri = [] := by
  rw [completions, Documents.contains, h]
  rfl

theorem completions_eq (hopen : documents.get? uri = some text)
    (hscan : index.document uri = Symbol.scan uri text) :
    completions index documents uri = reservedNames.map Reserved.completionItem ++
      (firstOfEach (reservedNames.map Reserved.name) (Symbol.scan uri text)).map
        Occurrence.completionItem := by
  rw [completions, Documents.contains, hopen, hscan]
  rfl

theorem labels_eq (firsts : List Occurrence) :
    (reservedNames.map Reserved.completionItem ++ firsts.map Occurrence.completionItem).map
        CompletionItem.label = reservedNames.map Reserved.name ++ firsts.map Occurrence.name := by
  rw [List.map_append, List.map_map, List.map_map]
  rfl

theorem completesWith_completions (hopen : documents.get? uri = some text)
    (hscan : index.document uri = Symbol.scan uri text) :
    CompletesWith uri text (completions index documents uri) where
  offers := by
    refine ⟨firstOfEach (reservedNames.map Reserved.name) (Symbol.scan uri text), _, _,
      completions_eq hopen hscan, ?_, ?_, ?_, ?_⟩
    · exact forall₂_map_left Reserved.completionItem_offers _
    · exact forall₂_map_left Occurrence.completionItem_offers _
    · exact (Symbol.pairwise_line_scan uri text).sublist (firstOfEach_sublist _ _)
    · intro occurrence
      rw [mem_firstOfEach_iff (Symbol.pairwise_line_scan uri text), ← isReserved_iff,
        Bool.not_eq_true]
  nodup := by
    rw [completions_eq hopen hscan, labels_eq, List.nodup_append]
    refine ⟨nodup_reservedNames, nodup_map_name_firstOfEach _ _, ?_⟩
    rintro reserved hreserved name hname rfl
    exact (mem_map_name_firstOfEach.mp hname).2 hreserved

/-- A name is offered if it is reserved or declared. -/
theorem mem_labels_iff {name : String} (hopen : documents.get? uri = some text)
    (hscan : index.document uri = Symbol.scan uri text) :
    name ∈ (completions index documents uri).map CompletionItem.label ↔
      isReserved name ∨ Symbol.declaredBy uri text name := by
  rw [completions_eq hopen hscan, labels_eq, List.mem_append, mem_map_name_firstOfEach,
    ← isReserved_iff, Symbol.declaredBy, List.any_eq_true, List.mem_map]
  by_cases h : isReserved name <;> simp [h]

end Completion

/-- The warning that the token is not declared. -/
def undeclaredWarning (source : String) (number : Nat) (before token : List Char) : Diagnostic :=
  (Finding.undeclared number before token).toDiagnostic source

namespace Workspace

/-- The index of a workspace finds in an open document what its text declares. -/
theorem findings_run {settings : Settings} {events : List Event} {uri text : String}
    (h : ((empty settings).run events).documents.get? uri = some text) :
    Diagnose.findings ((empty settings).run events).index uri text =
      Diagnose.findingsFrom (Symbol.declaredBy uri text) 0 (lines text) := by
  rw [Diagnose.findings]
  congr 1
  funext name
  rw [Bool.eq_iff_iff, (tracks_run settings events).declares_iff, Symbol.declaredBy,
    List.any_eq_true]
  constructor
  · rintro ⟨other, hmem, occurrence, hoccurrence, hname⟩
    rw [← get?_run_eq_some_iff, h] at hmem
    obtain rfl := Option.some.inj hmem
    exact ⟨occurrence, hoccurrence, beq_iff_eq.mpr hname⟩
  · rintro ⟨occurrence, hoccurrence, hname⟩
    exact ⟨text, (get?_run_eq_some_iff settings events uri text).mp h, occurrence, hoccurrence,
      beq_iff_eq.mp hname⟩

theorem document_run {settings : Settings} {events : List Event} {uri text : String}
    (h : ((empty settings).run events).documents.get? uri = some text) :
    ((empty settings).run events).index.document uri = Symbol.scan uri text :=
  (tracks_run settings events).document_eq (nodup_live_uris events)
    ((get?_run_eq_some_iff settings events uri text).mp h)

/-- After any events, completion offers the reserved names and the names that the document declares
now, each once, and nothing in a document that is not open. The last report about an open document
warns about a name that it checks if and only if completion does not offer this name, unless the
limit has cut the report. -/
theorem completions_agree_with_reports (settings : Settings) (events : List Event) (uri : String) :
    (((empty settings).run events).documents.get? uri = none →
      ((empty settings).run events).completions uri = []) ∧
    ∀ text, ((empty settings).run events).documents.get? uri = some text →
      CompletesWith uri text (((empty settings).run events).completions uri) ∧
      ∃ report, (empty settings).lastReport? events uri = some report ∧
        ((Diagnose.findings ((empty settings).run events).index uri text).length ≤
            settings.maxProblems →
          ∀ number before token after, IsChecked text number before token after →
            (undeclaredWarning settings.diagnosticSource number before token ∈
                report.diagnostics ↔
              String.ofList token ∉
                (((empty settings).run events).completions uri).map CompletionItem.label)) := by
  refine ⟨completions_eq_nil, ?_⟩
  intro text hopen
  have hscan := document_run hopen
  refine ⟨completesWith_completions hopen hscan, _, lastReport?_eq_of_get? hopen, ?_⟩
  intro hlimit number before token after hchecked
  rw [findings_run hopen] at hlimit
  have hreport : ((empty settings).update uri text).2.diagnostics =
      (Diagnose.findingsFrom (Symbol.declaredBy uri text) 0 (lines text)).map
        (Finding.toDiagnostic settings.diagnosticSource) := by
    calc
      _ = ((Diagnose.findingsFrom (Symbol.declaredBy uri text) 0 (lines text)).take
            settings.maxProblems).map (Finding.toDiagnostic settings.diagnosticSource) :=
        Diagnose.diagnose_reindex settings.policy Symbol.Index.empty uri text
      _ = _ := by rw [List.take_of_length_le hlimit]
  rw [hreport, undeclaredWarning, List.mem_map_of_injective (Finding.toDiagnostic_injective _),
    Diagnose.undeclared_mem_findingsFrom_iff hchecked,
    Workspace.completions, mem_labels_iff hopen hscan, not_or, Bool.not_eq_true, Bool.not_eq_true]

/-- One name is declared and one is misspelt in the open document, and another document is not
open. -/
theorem completions_agree_with_reports_of_misspelt :
    ((empty Settings.standard).run
        [⟨"a.inmu", "let count = 1\nprint cuont", .opened⟩]).documents.get? "a.inmu" =
          some "let count = 1\nprint cuont" ∧
      (Diagnose.findings ((empty Settings.standard).run
          [⟨"a.inmu", "let count = 1\nprint cuont", .opened⟩]).index "a.inmu"
          "let count = 1\nprint cuont").length ≤ Settings.standard.maxProblems ∧
      IsChecked "let count = 1\nprint cuont" 1 "print ".toList "cuont".toList [] ∧
      (∃ report, (empty Settings.standard).lastReport?
          [⟨"a.inmu", "let count = 1\nprint cuont", .opened⟩] "a.inmu" = some report ∧
        undeclaredWarning "inmu" 1 "print ".toList "cuont".toList ∈ report.diagnostics) ∧
      ((empty Settings.standard).run
        [⟨"a.inmu", "let count = 1\nprint cuont", .opened⟩]).completions "b.inmu" = [] := by
  have hopen : ((empty Settings.standard).run
      [⟨"a.inmu", "let count = 1\nprint cuont", .opened⟩]).documents.get? "a.inmu" =
        some "let count = 1\nprint cuont" := by decide
  have hlimit : (Diagnose.findings ((empty Settings.standard).run
      [⟨"a.inmu", "let count = 1\nprint cuont", .opened⟩]).index "a.inmu"
      "let count = 1\nprint cuont").length ≤ Settings.standard.maxProblems := by decide +kernel
  have hchecked : IsChecked "let count = 1\nprint cuont" 1 "print ".toList "cuont".toList [] := by
    decide +kernel
  obtain ⟨-, report, hreport, hwarns⟩ := (completions_agree_with_reports Settings.standard
    [⟨"a.inmu", "let count = 1\nprint cuont", .opened⟩] "a.inmu").2 _ hopen
  refine ⟨hopen, hlimit, hchecked, ⟨report, hreport, ?_⟩, ?_⟩
  · exact (hwarns hlimit 1 _ _ _ hchecked).mpr (by decide +kernel)
  · exact (completions_agree_with_reports Settings.standard
      [⟨"a.inmu", "let count = 1\nprint cuont", .opened⟩] "b.inmu").1 (by decide)

end Workspace

end ScriptSense
