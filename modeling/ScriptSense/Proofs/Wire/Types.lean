import ScriptSense.Proofs.Wire.Survival

/-!
# The types on the wire

Every type that crosses the border of the program survives it, as long as its numbers are in their
ranges: 32 bits for places and widths, 64 bits for the number of problems.
-/

namespace ScriptSense

structure Position.Fits (position : Position) : Prop where
  line : position.line ≤ 0xFFFFFFFF
  column : position.column ≤ 0xFFFFFFFF

structure Range.Fits (range : Range) : Prop where
  start : range.start.Fits
  stop : range.stop.Fits

structure Occurrence.Fits (occurrence : Occurrence) : Prop where
  line : occurrence.line ≤ 0xFFFFFFFF
  column : occurrence.column ≤ 0xFFFFFFFF

structure Settings.Fits (settings : Settings) : Prop where
  maxProblems : settings.maxProblems ≤ 0xFFFFFFFFFFFFFFFF
  tabSize : settings.tabSize ≤ 0xFFFFFFFF

namespace Wire

open Codec

theorem agrees_symbolKind : symbolKind.Agrees :=
  agrees_choice _

theorem agrees_severity : severity.Agrees :=
  agrees_choice _

theorem agrees_changeKind : changeKind.Agrees :=
  agrees_choice _

theorem agrees_completionKind : completionKind.Agrees :=
  agrees_choice _

theorem agrees_category : category.Agrees :=
  agrees_choice _

theorem carries_symbolKind (kind : SymbolKind) : symbolKind.Carries kind :=
  carries_choice (by cases kind <;> rfl)

theorem carries_severity (value : Severity) : severity.Carries value :=
  carries_choice (by cases value <;> rfl)

theorem carries_changeKind (kind : ChangeKind) : changeKind.Carries kind :=
  carries_choice (by cases kind <;> rfl)

theorem carries_completionKind (kind : CompletionKind) : completionKind.Carries kind :=
  carries_choice (by cases kind <;> rfl)

theorem carries_category (value : Script.Category) : category.Carries value :=
  carries_choice (by cases value <;> rfl)

theorem agrees_word32 : word32.Agrees :=
  agrees_nat _ _

theorem carries_word32 {value : Nat} (h : value ≤ 0xFFFFFFFF) : word32.Carries value :=
  carries_nat _ (by decide) h

theorem agrees_text? : text.optional.Agrees :=
  agrees_optional agrees_text

theorem carries_text? (value : Option String) : text.optional.Carries value := by
  cases value with
  | none => exact carries_none text
  | some value => exact carries_some (carries_text value) nofun

theorem lawful_position : positionRecord.Lawful where
  keys_nodup := by decide
  make_split _ := rfl
  agree := ⟨agrees_word32, agrees_word32, trivial⟩

theorem carries_position {value : Position} (h : value.Fits) : position.Carries value :=
  lawful_position.carries ⟨carries_word32 h.line, carries_word32 h.column, trivial⟩

theorem lawful_range : rangeRecord.Lawful where
  keys_nodup := by decide
  make_split _ := rfl
  agree := ⟨lawful_position.agrees, lawful_position.agrees, trivial⟩

theorem carries_range {value : Range} (h : value.Fits) : range.Carries value :=
  lawful_range.carries ⟨carries_position h.start, carries_position h.stop, trivial⟩

theorem agrees_range? : range.optional.Agrees :=
  agrees_optional lawful_range.agrees

theorem carries_range? {value : Option Range} (h : ∀ range ∈ value, range.Fits) :
    range.optional.Carries value := by
  cases value with
  | none => exact carries_none range
  | some value => exact carries_some (carries_range (h value rfl)) nofun

theorem lawful_occurrence : occurrenceRecord.Lawful where
  keys_nodup := by decide
  make_split _ := rfl
  agree :=
    ⟨agrees_text, agrees_symbolKind, agrees_text, agrees_word32, agrees_word32, agrees_text?,
      trivial⟩

theorem lawful_diagnostic : diagnosticRecord.Lawful where
  keys_nodup := by decide
  make_split _ := rfl
  agree := ⟨agrees_severity, lawful_range.agrees, agrees_text, agrees_text, trivial⟩

theorem carries_diagnostic {value : Diagnostic} (h : value.range.Fits) : diagnostic.Carries value :=
  lawful_diagnostic.carries
    ⟨carries_severity _, carries_range h, carries_text _, carries_text _, trivial⟩

theorem lawful_report : reportRecord.Lawful where
  keys_nodup := by decide
  make_split _ := rfl
  agree := ⟨agrees_text, agrees_list lawful_diagnostic.agrees, trivial⟩

theorem lawful_event : eventRecord.Lawful where
  keys_nodup := by decide
  make_split _ := rfl
  agree := ⟨agrees_text, agrees_text, agrees_changeKind, trivial⟩

theorem lawful_indentStyle : indentStyleRecord.Lawful where
  keys_nodup := by decide
  make_split _ := rfl
  agree := ⟨agrees_word32, agrees_bool, trivial⟩

theorem lawful_edit : editRecord.Lawful where
  keys_nodup := by decide
  make_split _ := rfl
  agree := ⟨lawful_range.agrees, agrees_text, trivial⟩

theorem lawful_location : locationRecord.Lawful where
  keys_nodup := by decide
  make_split _ := rfl
  agree := ⟨agrees_text, lawful_range.agrees, trivial⟩

theorem carries_location {value : Location} (h : value.range.Fits) : location.Carries value :=
  lawful_location.carries ⟨carries_text _, carries_range h, trivial⟩

theorem lawful_hover : hoverRecord.Lawful where
  keys_nodup := by decide
  make_split _ := rfl
  agree := ⟨agrees_text, agrees_range?, trivial⟩

theorem lawful_outlineItem : outlineItemRecord.Lawful where
  keys_nodup := by decide
  make_split _ := rfl
  agree := ⟨agrees_text, agrees_symbolKind, lawful_location.agrees, trivial⟩

theorem lawful_completionItem : completionItemRecord.Lawful where
  keys_nodup := by decide
  make_split _ := rfl
  agree :=
    ⟨agrees_text, agrees_completionKind, agrees_text?, agrees_text?, agrees_text?, trivial⟩

theorem lawful_settings : settingsRecord.Lawful where
  keys_nodup := by decide
  make_split _ := rfl
  agree := ⟨agrees_text, agrees_nat _ _, agrees_word32, agrees_bool, trivial⟩

/-- Every value of every type is read from all its forms. -/
structure Survival : Prop where
  symbolKind : ∀ kind, symbolKind.Restores kind
  severity : ∀ level, severity.Restores level
  changeKind : ∀ kind, changeKind.Restores kind
  completionKind : ∀ kind, completionKind.Restores kind
  category : ∀ kind, category.Restores kind
  position : ∀ value : Position, value.Fits → positionRecord.Survives value
  range : ∀ value : Range, value.Fits → rangeRecord.Survives value
  occurrence : ∀ value : Occurrence, value.Fits → occurrenceRecord.Survives value
  diagnostic : ∀ value : Diagnostic, value.range.Fits → diagnosticRecord.Survives value
  report : ∀ value : Report, (∀ item ∈ value.diagnostics, item.range.Fits) →
    reportRecord.Survives value
  event : ∀ value, eventRecord.Survives value
  indentStyle : ∀ value : IndentStyle, value.tabSize ≤ 0xFFFFFFFF → indentStyleRecord.Survives value
  edit : ∀ value : Edit, value.range.Fits → editRecord.Survives value
  location : ∀ value : Location, value.range.Fits → locationRecord.Survives value
  hover : ∀ value : Hover, (∀ range ∈ value.range, range.Fits) → hoverRecord.Survives value
  outlineItem : ∀ value : OutlineItem, value.location.range.Fits → outlineItemRecord.Survives value
  completionItem : ∀ value, completionItemRecord.Survives value
  settings : ∀ value : Settings, value.Fits → settingsRecord.Survives value

theorem wire_values_survive : Survival where
  symbolKind kind := agrees_symbolKind.restores (carries_symbolKind kind)
  severity level := agrees_severity.restores (carries_severity level)
  changeKind kind := agrees_changeKind.restores (carries_changeKind kind)
  completionKind kind := agrees_completionKind.restores (carries_completionKind kind)
  category kind := agrees_category.restores (carries_category kind)
  position _ h := lawful_position.survives ⟨carries_word32 h.line, carries_word32 h.column, trivial⟩
  range _ h := lawful_range.survives ⟨carries_position h.start, carries_position h.stop, trivial⟩
  occurrence _ h := lawful_occurrence.survives
    ⟨carries_text _, carries_symbolKind _, carries_text _, carries_word32 h.line,
      carries_word32 h.column, carries_text? _, trivial⟩
  diagnostic _ h := lawful_diagnostic.survives
    ⟨carries_severity _, carries_range h, carries_text _, carries_text _, trivial⟩
  report _ h := lawful_report.survives
    ⟨carries_text _, carries_list fun item hitem ↦ carries_diagnostic (h item hitem), trivial⟩
  event _ := lawful_event.survives ⟨carries_text _, carries_text _, carries_changeKind _, trivial⟩
  indentStyle _ h := lawful_indentStyle.survives ⟨carries_word32 h, carries_bool _, trivial⟩
  edit _ h := lawful_edit.survives ⟨carries_range h, carries_text _, trivial⟩
  location _ h := lawful_location.survives ⟨carries_text _, carries_range h, trivial⟩
  hover _ h := lawful_hover.survives ⟨carries_text _, carries_range? h, trivial⟩
  outlineItem _ h := lawful_outlineItem.survives
    ⟨carries_text _, carries_symbolKind _, carries_location h, trivial⟩
  completionItem _ := lawful_completionItem.survives
    ⟨carries_text _, carries_completionKind _, carries_text? _, carries_text? _, carries_text? _,
      trivial⟩
  settings _ h := lawful_settings.survives
    ⟨carries_text _, carries_nat _ (Nat.le_refl Json.maxDigits) h.maxProblems,
      carries_word32 h.tabSize, carries_bool _, trivial⟩

/-- Numbers at their limits, a text of a control character and one beyond the basic plane, and an
absent range. -/
theorem wire_values_survive_limits :
    positionRecord.Survives ⟨0, 0xFFFFFFFF⟩ ∧
      settingsRecord.Survives ⟨"\x00\"😀", 0xFFFFFFFFFFFFFFFF, 0xFFFFFFFF, false⟩ ∧
      hoverRecord.Survives ⟨"é", none⟩ :=
  ⟨wire_values_survive.position ⟨0, 0xFFFFFFFF⟩ ⟨by decide, by decide⟩,
    wire_values_survive.settings _ ⟨by decide, by decide⟩,
    wire_values_survive.hover _ nofun⟩

end Wire

end ScriptSense
