import ScriptSense.Proofs.Workspace.Agreement

/-!
# The order of the names stays hidden

An index lists its names in some order, and all occurrences are listed name by name. The occurrences
of one document stand on lines of their own, so there is one way to sort them by position: what is
sorted is the scan of the document, in whatever order the names were listed.
-/

namespace ScriptSense.Workspace

open Script ScriptSense.Symbol

/-- Whatever the order in which the index lists its names, the declarations of the document come in
the order of a scan of its text, and its outline lists them one by one. -/
structure HidesOrder (workspace : Workspace) (uri text : String) : Prop where
  increasing : (scan uri text).Pairwise fun earlier later ↦ earlier.line < later.line
  linesApart : ((workspace.index.occurrences.filter (·.uri == uri)).map Occurrence.line).Nodup
  listing : ∀ entries : List Entry, entries.Perm workspace.index.entries → ∀ listing,
    listing.Perm ((Index.occurrences ⟨entries⟩).filter (·.uri == uri)) →
      listing.Pairwise (positionPrecedes · ·) → listing = scan uri text
  byPosition : ∀ entries : List Entry, entries.Perm workspace.index.entries →
    Index.byPosition ⟨entries⟩ uri = scan uri text
  outline : ∀ entries : List Entry, entries.Perm workspace.index.entries →
    workspace.outline uri = (Index.byPosition ⟨entries⟩ uri).map Occurrence.outlineItem
  completions : ∀ entries : List Entry, entries.Perm workspace.index.entries →
    workspace.completions uri = reservedNames.map Reserved.completionItem ++
      (firstOfEach (reservedNames.map Reserved.name) (Index.byPosition ⟨entries⟩ uri)).map
        Occurrence.completionItem
  lists : List.Forall₂ OutlineItem.Lists (workspace.outline uri) (scan uri text)
  completes : CompletesWith uri text (workspace.completions uri)

section Run

variable {settings : Settings} {events : List Event} {uri text : String}

/-- Listed name by name, the occurrences of an open document are a rearrangement of its scan. -/
theorem filter_occurrences_perm
    (h : ((empty settings).run events).documents.get? uri = some text) {entries : List Entry}
    (hentries : entries.Perm ((empty settings).run events).index.entries) :
    ((Index.occurrences ⟨entries⟩).filter (·.uri == uri)).Perm (scan uri text) := by
  have htracks := tracks_run settings events
  have hscan : (declarations (live events)).filter (·.uri == uri) = scan uri text := by
    rw [filter_declarations (· == uri), filter_uri_eq (nodup_live_uris events)
      ((get?_run_eq_some_iff settings events uri text).mp h)]
    exact List.append_nil _
  rw [← hscan]
  exact (htracks.groups.reorder hentries).occurrences_perm.filter _

/-- Positions sort the occurrences of an open document in one way. -/
theorem eq_scan_of_sorted (h : ((empty settings).run events).documents.get? uri = some text)
    {entries : List Entry} (hentries : entries.Perm ((empty settings).run events).index.entries)
    {listing : List Occurrence}
    (hperm : listing.Perm ((Index.occurrences ⟨entries⟩).filter (·.uri == uri)))
    (hsorted : listing.Pairwise (positionPrecedes · ·)) : listing = scan uri text := by
  refine eq_of_perm_of_sorted (hperm.trans (filter_occurrences_perm h hentries))
    (hsorted.imp fun {a b} hposition ↦ ?_) (pairwise_line_scan uri text)
  rw [positionPrecedes_iff] at hposition
  omega

theorem byPosition_run (h : ((empty settings).run events).documents.get? uri = some text)
    {entries : List Entry}
    (hentries : entries.Perm ((empty settings).run events).index.entries) :
    Index.byPosition ⟨entries⟩ uri = scan uri text :=
  eq_scan_of_sorted h hentries (List.mergeSort_perm _ _)
    (List.pairwise_mergeSort positionPrecedes_trans positionPrecedes_total _)

/-- After any events, the declarations of an open document are listed as a scan of its text finds
them, and so are its outline and its completions. The order in which the index lists the names has
no part in it. -/
theorem outline_hides_order (h : ((empty settings).run events).documents.get? uri = some text) :
    HidesOrder ((empty settings).run events) uri text where
  increasing := pairwise_line_scan uri text
  linesApart := by
    have hperm := filter_occurrences_perm h (List.Perm.refl _)
    rw [(hperm.map Occurrence.line).nodup_iff, List.Nodup, List.pairwise_map]
    exact (pairwise_line_scan uri text).imp Nat.ne_of_lt
  listing entries hentries listing := eq_scan_of_sorted h hentries
  byPosition entries hentries := byPosition_run h hentries
  outline entries hentries := by
    rw [byPosition_run h hentries, Workspace.outline, ScriptSense.outline, document_run h]
  completions entries hentries := by
    rw [byPosition_run h hentries, Workspace.completions, completions_eq h (document_run h)]
  lists := by
    rw [Workspace.outline, ScriptSense.outline, document_run h]
    exact forall₂_map_left Occurrence.outlineItem_lists _
  completes := completesWith_completions h (document_run h)

end Run

/-- Two documents that declare one name, and one of them declares another name twice. -/
def sharedNames : List Event :=
  [⟨"a.inmu", "let b = 1\nfn a(x)\nlet b = 2", .opened⟩, ⟨"b.inmu", "let a = 1", .opened⟩]

theorem outline_hides_order_of_shared :
    ((empty Settings.standard).run sharedNames).documents.get? "a.inmu" =
        some "let b = 1\nfn a(x)\nlet b = 2" ∧
      Index.byPosition ⟨((empty Settings.standard).run sharedNames).index.entries.reverse⟩
          "a.inmu" =
        [⟨"b", .variable, "a.inmu", 0, 4, none⟩, ⟨"a", .function, "a.inmu", 1, 3, none⟩,
          ⟨"b", .variable, "a.inmu", 2, 4, none⟩] := by
  have htext : ((empty Settings.standard).run sharedNames).documents.get? "a.inmu" =
      some "let b = 1\nfn a(x)\nlet b = 2" := by decide +kernel
  refine ⟨htext, ?_⟩
  rw [(outline_hides_order htext).byPosition _ (List.reverse_perm _)]
  decide +kernel

end ScriptSense.Workspace
