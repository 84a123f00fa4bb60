import Mathlib.Data.List.Nodup
import Mathlib.Data.List.Perm.Basic
import ScriptSense.Proofs.Symbol.Scan
import ScriptSense.Symbol.Index

/-!
# The index as the groups of a log

An index groups a log of occurrences when it holds the occurrences of the log name by name: every
name of the log once, and under it the occurrences of that name in the order of the log. Inserting
an occurrence appends it to the log, and removing a document filters the log. What the index answers
is then read off the log.

Once a document has been brought up to date with a text, it declares the names that a scan of this
text finds, and no others, whatever the index held before.
-/

namespace ScriptSense.Symbol

/-- The index holds exactly the occurrences of `log`, grouped by name. -/
structure Groups (index : Index) (log : List Occurrence) : Prop where
  nodup : index.names.Nodup
  occurrences_eq : ∀ entry ∈ index.entries, entry.occurrences = log.filter (·.name == entry.name)
  mem_names : ∀ name, name ∈ index.names ↔ ∃ occurrence ∈ log, occurrence.name = name

/-- The entry with the occurrence put last, if it is one of its name. -/
def Entry.push (occurrence : Occurrence) (entry : Entry) : Entry :=
  ⟨entry.name, entry.occurrences ++ [occurrence].filter (·.name == entry.name)⟩

/-- The entry with the occurrences from `uri` left out. -/
def Entry.without (uri : String) (entry : Entry) : Entry :=
  ⟨entry.name, entry.occurrences.filter (·.uri != uri)⟩

theorem insertInto_of_notMem {occurrence : Occurrence} {entries : List Entry}
    (h : occurrence.name ∉ entries.map Entry.name) :
    Index.insertInto occurrence entries = entries ++ [⟨occurrence.name, [occurrence]⟩] := by
  induction entries with
  | nil => rfl
  | cons entry rest ih =>
    simp only [List.map_cons, List.mem_cons, not_or] at h
    rw [Index.insertInto, if_neg (Ne.symm h.1), ih h.2, List.cons_append]

theorem push_eq_self {occurrence : Occurrence} {entry : Entry} (h : occurrence.name ≠ entry.name) :
    entry.push occurrence = entry := by
  simp [Entry.push, h]

theorem insertInto_of_mem {occurrence : Occurrence} {entries : List Entry}
    (nodup : (entries.map Entry.name).Nodup) (h : occurrence.name ∈ entries.map Entry.name) :
    Index.insertInto occurrence entries = entries.map (Entry.push occurrence) := by
  induction entries with
  | nil => simp at h
  | cons entry rest ih =>
    obtain ⟨hfresh, hrest⟩ := List.nodup_cons.mp nodup
    rw [Index.insertInto, List.map_cons]
    by_cases heq : entry.name = occurrence.name
    · have hothers : rest.map (Entry.push occurrence) = rest := by
        conv_rhs => rw [← List.map_id rest]
        apply List.map_congr_left
        intro other hother
        apply push_eq_self
        intro hname
        exact hfresh (heq ▸ hname ▸ List.mem_map_of_mem hother)
      rw [if_pos heq, hothers, Entry.push]
      simp [heq]
    · rw [if_neg heq, push_eq_self (Ne.symm heq)]
      rw [ih hrest ((List.mem_cons.mp h).resolve_left (Ne.symm heq))]

theorem remove_entries (index : Index) (uri : String) :
    (index.remove uri).entries =
      (index.entries.map (Entry.without uri)).filter (!·.occurrences.isEmpty) := by
  rw [← List.filterMap_eq_filter, List.filterMap_map]
  apply List.filterMap_congr
  intro entry _
  unfold Index.withoutDocument Entry.without
  cases hkept : entry.occurrences.filter (·.uri != uri) <;> simp [Option.guard, hkept]

namespace Groups

variable {index : Index} {log : List Occurrence}

theorem empty : Groups Index.empty [] where
  nodup := List.nodup_nil
  occurrences_eq := by simp [Index.empty]
  mem_names := by simp [Index.names, Index.empty]

theorem filter_eq_nil (h : Groups index log) {name : String} (hname : name ∉ index.names) :
    log.filter (·.name == name) = [] := by
  rw [List.filter_eq_nil_iff]
  intro occurrence hmem heq
  exact hname ((h.mem_names name).mpr ⟨occurrence, hmem, by simpa using heq⟩)

theorem insert_known (h : Groups index log) {occurrence : Occurrence}
    (hknown : occurrence.name ∈ index.names) :
    Groups (index.insert occurrence) (log ++ [occurrence]) := by
  have hentries : (index.insert occurrence).entries = index.entries.map (Entry.push occurrence) :=
    insertInto_of_mem h.nodup hknown
  have hnames : (index.insert occurrence).names = index.names := by
    rw [Index.names, hentries, List.map_map]
    rfl
  refine ⟨hnames ▸ h.nodup, ?_, ?_⟩
  · rw [hentries]
    intro entry hentry
    obtain ⟨old, hold, rfl⟩ := List.mem_map.mp hentry
    rw [Entry.push, List.filter_append, h.occurrences_eq old hold]
  · intro name
    rw [hnames, h.mem_names]
    constructor
    · rintro ⟨old, hold, hname⟩
      exact ⟨old, List.mem_append_left _ hold, hname⟩
    · rintro ⟨old, hold, hname⟩
      rcases List.mem_append.mp hold with hold | hold
      · exact ⟨old, hold, hname⟩
      · rw [List.mem_singleton.mp hold] at hname
        exact (h.mem_names name).mp (hname ▸ hknown)

theorem insert_fresh (h : Groups index log) {occurrence : Occurrence}
    (hfresh : occurrence.name ∉ index.names) :
    Groups (index.insert occurrence) (log ++ [occurrence]) := by
  have hentries : (index.insert occurrence).entries =
      index.entries ++ [⟨occurrence.name, [occurrence]⟩] := insertInto_of_notMem hfresh
  have hnames : (index.insert occurrence).names = index.names ++ [occurrence.name] := by
    rw [Index.names, hentries, List.map_append]
    rfl
  refine ⟨?_, ?_, ?_⟩
  · rw [hnames, List.nodup_append]
    refine ⟨h.nodup, by simp, ?_⟩
    intro name hname other hother heq
    rw [List.mem_singleton.mp hother] at heq
    exact hfresh (heq ▸ hname)
  · rw [hentries]
    intro entry hentry
    rw [List.filter_append]
    rcases List.mem_append.mp hentry with hentry | hentry
    · have hother : occurrence.name ≠ entry.name := by
        intro heq
        exact hfresh (heq ▸ List.mem_map_of_mem hentry)
      simp [h.occurrences_eq entry hentry, hother]
    · rw [List.mem_singleton.mp hentry, h.filter_eq_nil hfresh]
      simp
  · intro name
    rw [hnames, List.mem_append, h.mem_names]
    simp [or_and_right, exists_or, eq_comm]

theorem insert (h : Groups index log) (occurrence : Occurrence) :
    Groups (index.insert occurrence) (log ++ [occurrence]) := by
  by_cases hname : occurrence.name ∈ index.names
  · exact h.insert_known hname
  · exact h.insert_fresh hname

theorem insert_all (h : Groups index log) (occurrences : List Occurrence) :
    Groups (occurrences.foldl Index.insert index) (log ++ occurrences) := by
  induction occurrences generalizing index log with
  | nil => simpa using h
  | cons occurrence rest ih => simpa using ih (h.insert occurrence)

theorem remove (h : Groups index log) (uri : String) :
    Groups (index.remove uri) (log.filter (·.uri != uri)) := by
  have hmem (entry : Entry) (hentry : entry ∈ (index.remove uri).entries) :
      entry.occurrences = (log.filter (·.uri != uri)).filter (·.name == entry.name) := by
    rw [remove_entries] at hentry
    obtain ⟨old, hold, rfl⟩ := List.mem_map.mp (List.mem_of_mem_filter hentry)
    rw [Entry.without, h.occurrences_eq old hold, List.filter_comm]
  refine ⟨?_, hmem, ?_⟩
  · have hsub : List.Sublist (index.remove uri).names index.names := by
      rw [Index.names, remove_entries]
      have hmap := (List.filter_sublist (p := (!·.occurrences.isEmpty))
        (l := index.entries.map (Entry.without uri))).map Entry.name
      rw [List.map_map] at hmap
      exact hmap
    exact h.nodup.sublist hsub
  · intro name
    constructor
    · intro hname
      obtain ⟨entry, hentry, rfl⟩ := List.mem_map.mp hname
      have hkept := hentry
      rw [remove_entries, List.mem_filter] at hkept
      have hsome : entry.occurrences ≠ [] := by simpa using hkept.2
      obtain ⟨occurrence, hoccurrence⟩ := List.exists_mem_of_ne_nil _ hsome
      rw [hmem entry hentry, List.mem_filter] at hoccurrence
      exact ⟨occurrence, hoccurrence.1, by simpa using hoccurrence.2⟩
    · rintro ⟨occurrence, hoccurrence, rfl⟩
      obtain ⟨hlog, huri⟩ := List.mem_filter.mp hoccurrence
      obtain ⟨entry, hentry, hname⟩ := List.mem_map.mp
        ((h.mem_names occurrence.name).mpr ⟨occurrence, hlog, rfl⟩)
      refine List.mem_map.mpr ⟨entry.without uri, ?_, hname⟩
      rw [remove_entries, List.mem_filter]
      refine ⟨List.mem_map_of_mem hentry, ?_⟩
      have hin : occurrence ∈ (entry.without uri).occurrences := by
        rw [Entry.without, h.occurrences_eq entry hentry, List.mem_filter, List.mem_filter]
        exact ⟨⟨hlog, by simpa using hname.symm⟩, huri⟩
      simpa using List.ne_nil_of_mem hin

theorem replace (h : Groups index log) (uri : String) (occurrences : List Occurrence) :
    Groups (index.replace uri occurrences) (log.filter (·.uri != uri) ++ occurrences) :=
  (h.remove uri).insert_all occurrences

theorem reindex (h : Groups index log) (uri text : String) :
    Groups (index.reindex uri text) (log.filter (·.uri != uri) ++ scan uri text) :=
  h.replace uri (scan uri text)

/-- The order in which an index lists its names is not part of what it holds. -/
theorem reorder (h : Groups index log) {entries : List Entry}
    (hperm : entries.Perm index.entries) : Groups ⟨entries⟩ log where
  nodup := (hperm.map Entry.name).nodup_iff.mpr h.nodup
  occurrences_eq entry hentry := h.occurrences_eq entry (hperm.mem_iff.mp hentry)
  mem_names name := (hperm.map Entry.name).mem_iff.trans (h.mem_names name)

theorem ne_nil_of_mem (h : Groups index log) {entry : Entry} (hentry : entry ∈ index.entries) :
    entry.occurrences ≠ [] := by
  obtain ⟨occurrence, hlog, hname⟩ := (h.mem_names entry.name).mp (List.mem_map_of_mem hentry)
  rw [h.occurrences_eq entry hentry]
  exact List.ne_nil_of_mem (List.mem_filter.mpr ⟨hlog, by simpa using hname⟩)

theorem mem_entries_of_groups {other : Index} (h : Groups index log) (hother : Groups other log)
    {entry : Entry} (hentry : entry ∈ index.entries) : entry ∈ other.entries := by
  have hname : entry.name ∈ other.names := by
    rw [hother.mem_names, ← h.mem_names]
    exact List.mem_map_of_mem hentry
  obtain ⟨found, hfound, hsame⟩ := List.mem_map.mp hname
  have hoccurrences : found.occurrences = entry.occurrences := by
    rw [h.occurrences_eq entry hentry, hother.occurrences_eq found hfound, hsame]
  cases found
  cases entry
  simp_all

/-- What an index holds determines its entries up to their order. -/
theorem entries_perm {other : Index} (h : Groups index log) (hother : Groups other log) :
    index.entries.Perm other.entries := by
  rw [List.perm_ext_iff_of_nodup (List.Nodup.of_map _ h.nodup) (List.Nodup.of_map _ hother.nodup)]
  intro entry
  exact ⟨h.mem_entries_of_groups hother, hother.mem_entries_of_groups h⟩

end Groups

/-- Whether a scan of the text finds a declaration of the name. -/
def declaredBy (uri text name : String) : Bool :=
  (scan uri text).any (·.name == name)

namespace Index

theorem lookup_insert (index : Index) (occurrence : Occurrence) (name : String) :
    (index.insert occurrence).lookup name =
      index.lookup name ++ [occurrence].filter (·.name == name) := by
  obtain ⟨entries⟩ := index
  simp only [lookup, insert]
  induction entries with
  | nil => by_cases heq : occurrence.name = name <;> simp [insertInto, heq]
  | cons entry rest ih =>
    by_cases hentry : entry.name = name
    · by_cases heq : occurrence.name = name
      · simp [insertInto, hentry, heq]
      · simp [insertInto, hentry, heq, Ne.symm heq]
    · by_cases hsame : entry.name = occurrence.name
      · simp [insertInto, hsame ▸ hentry, hsame]
      · simpa [insertInto, hentry, hsame] using ih

theorem lookup_foldl_insert (index : Index) (occurrences : List Occurrence) (name : String) :
    (occurrences.foldl insert index).lookup name =
      index.lookup name ++ occurrences.filter (·.name == name) := by
  induction occurrences generalizing index with
  | nil => simp
  | cons occurrence rest ih =>
    rw [List.foldl_cons, ih, lookup_insert, List.append_assoc, ← List.filter_append,
      List.singleton_append]

theorem uri_ne_of_mem_lookup_remove {index : Index} {uri name : String} {occurrence : Occurrence}
    (h : occurrence ∈ (index.remove uri).lookup name) : occurrence.uri ≠ uri := by
  unfold lookup at h
  split at h
  · rename_i entry hfind
    have hentry := List.mem_of_find?_eq_some hfind
    rw [remove_entries] at hentry
    obtain ⟨old, _, rfl⟩ := List.mem_map.mp (List.mem_of_mem_filter hentry)
    simpa using (List.mem_filter.mp h).2
  · simp at h

/-- What a document declares after it was brought up to date does not depend on the index. -/
theorem declares_reindex (index : Index) (uri text name : String) :
    (index.reindex uri text).declares name uri = declaredBy uri text name := by
  have hold : ((index.remove uri).lookup name).any (·.uri == uri) = false := by
    rw [List.any_eq_false]
    intro occurrence hmem
    simpa using uri_ne_of_mem_lookup_remove hmem
  have hnew : ((scan uri text).filter (·.name == name)).any (·.uri == uri) =
      declaredBy uri text name := by
    rw [declaredBy, List.any_filter, Bool.eq_iff_iff, List.any_eq_true, List.any_eq_true]
    constructor
    · rintro ⟨occurrence, hmem, hboth⟩
      exact ⟨occurrence, hmem, (Bool.and_eq_true_iff.mp hboth).1⟩
    · rintro ⟨occurrence, hmem, hname⟩
      exact ⟨occurrence, hmem, by simp [hname, uri_of_mem_scan hmem]⟩
  rw [declares, reindex, replace, lookup_foldl_insert, List.any_append, hold, hnew,
    Bool.false_or]

end Index

end ScriptSense.Symbol
