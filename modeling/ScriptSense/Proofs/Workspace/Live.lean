import Mathlib.Data.List.Induction
import Mathlib.Data.List.Nodup
import ScriptSense.Workspace

/-!
# The documents that a sequence of events leaves open

What becomes of a document is settled by the last event that names it. The live documents are those
whose last event opens or changes them, in the order of these events. One more event takes its own
document out of the list and, unless it is a close, puts it back at the end.

An open document has the text of its last event. The more events there are after this one, the
further ahead the document stands in the list of the live documents.
-/

namespace ScriptSense.Workspace

/-- The last event that names the document. -/
def lastEvent? (events : List Event) (uri : String) : Option Event :=
  events.reverse.find? (·.uri == uri)

/-- The events that no later event of the same document follows, in their order. -/
def lastEvents : List Event → List Event
  | [] => []
  | event :: rest =>
    if event.uri ∈ rest.map Event.uri then lastEvents rest else event :: lastEvents rest

/-- The open documents with their texts, in the order in which they were last opened or changed. -/
def live (events : List Event) : List (String × String) :=
  ((lastEvents events).filter (·.kind != .closed)).map fun event ↦ (event.uri, event.text)

theorem lastEvents_append_singleton (events : List Event) (event : Event) :
    lastEvents (events ++ [event]) =
      (lastEvents events).filter (·.uri != event.uri) ++ [event] := by
  induction events with
  | nil => simp [lastEvents]
  | cons first rest ih =>
    simp only [List.cons_append, lastEvents, ih, List.map_append, List.map_cons, List.map_nil,
      List.mem_append, List.mem_singleton]
    by_cases hlater : first.uri ∈ rest.map Event.uri
    · rw [if_pos (.inl hlater), if_pos hlater]
    · rw [if_neg hlater]
      by_cases heq : first.uri = event.uri
      · rw [if_pos (.inr heq)]
        simp [heq]
      · rw [if_neg (by simp only [hlater, heq, or_self, not_false_eq_true])]
        simp [heq]

theorem live_append_closed (events : List Event) {event : Event} (h : event.kind = .closed) :
    live (events ++ [event]) = (live events).filter (·.1 != event.uri) := by
  rw [live, lastEvents_append_singleton, List.filter_append, List.filter_comm]
  simp [live, h, List.filter_map, Function.comp_def]

theorem live_append_text (events : List Event) {event : Event} (h : event.kind ≠ .closed) :
    live (events ++ [event]) =
      (live events).filter (·.1 != event.uri) ++ [(event.uri, event.text)] := by
  rw [live, lastEvents_append_singleton, List.filter_append, List.filter_comm]
  simp [live, h, List.filter_map, Function.comp_def]

theorem lastEvent?_append_singleton (events : List Event) (event : Event) (uri : String) :
    lastEvent? (events ++ [event]) uri =
      if event.uri = uri then some event else lastEvent? events uri := by
  simp [lastEvent?, List.find?_cons]
  grind

theorem mem_live (events : List Event) (uri text : String) :
    (uri, text) ∈ live events ↔
      ∃ event, lastEvent? events uri = some event ∧ event.kind ≠ .closed ∧ event.text = text := by
  induction events using List.reverseRecOn with
  | nil => simp [live, lastEvents, lastEvent?]
  | append_singleton events event ih =>
    rw [lastEvent?_append_singleton]
    by_cases hclosed : event.kind = .closed
    · rw [live_append_closed events hclosed, List.mem_filter, ih]
      by_cases heq : event.uri = uri
      · simp [heq, hclosed]
      · simp [heq, Ne.symm heq]
    · rw [live_append_text events hclosed, List.mem_append, List.mem_filter, ih]
      by_cases heq : event.uri = uri
      · simp only [heq, hclosed, bne_self_eq_false, Bool.false_eq_true, and_false, false_or,
          List.mem_singleton, Prod.mk.injEq, true_and, if_true, Option.some.injEq,
          exists_eq_left', ne_eq, not_false_eq_true]
        exact eq_comm
      · simp [heq, Ne.symm heq]

theorem nodup_live_uris (events : List Event) : ((live events).map Prod.fst).Nodup := by
  induction events using List.reverseRecOn with
  | nil => exact List.nodup_nil
  | append_singleton events event ih =>
    have hfilter : (((live events).filter (·.1 != event.uri)).map Prod.fst).Nodup :=
      ih.sublist (List.filter_sublist.map Prod.fst)
    by_cases hclosed : event.kind = .closed
    · rw [live_append_closed events hclosed]
      exact hfilter
    · rw [live_append_text events hclosed, List.map_append, List.nodup_append]
      refine ⟨hfilter, by simp, ?_⟩
      intro uri huri other hother heq
      obtain ⟨document, hdocument, rfl⟩ := List.mem_map.mp huri
      have hne := (List.mem_filter.mp hdocument).2
      simp_all

/-- Opening documents one after the other, each once, makes them live in that order. -/
theorem live_map_opened {documents : List (String × String)}
    (nodup : (documents.map Prod.fst).Nodup) :
    live (documents.map fun document ↦ ⟨document.1, document.2, .opened⟩) = documents := by
  induction documents using List.reverseRecOn with
  | nil => rfl
  | append_singleton documents document ih =>
    rw [List.map_append, List.nodup_append] at nodup
    obtain ⟨hinit, _, hfresh⟩ := nodup
    have hkept : documents.filter (·.1 != document.1) = documents := by
      rw [List.filter_eq_self]
      intro other hother
      simpa using hfresh other.1 (List.mem_map_of_mem hother) document.1 (by simp)
    rw [List.map_append, List.map_singleton, live_append_text _ (by simp), ih hinit, hkept]

/-- The last event of the document opened or changed it and gave it the text, and `later` are the
events after that one. -/
structure HasText (events : List Event) (uri text : String) (later : List Event) : Prop where
  given : ∃ earlier event, events = earlier ++ event :: later ∧ event.uri = uri ∧
    event.text = text ∧ event.kind ≠ .closed
  last : uri ∉ later.map Event.uri

theorem lastEvents_append (front back : List Event) :
    lastEvents (front ++ back) =
      (lastEvents front).filter (·.uri ∉ back.map Event.uri) ++ lastEvents back := by
  induction front with
  | nil => rfl
  | cons event rest ih =>
    simp only [List.cons_append, lastEvents, ih, List.map_append, List.mem_append]
    by_cases hrest : event.uri ∈ rest.map Event.uri
    · rw [if_pos (.inl hrest), if_pos hrest]
    · by_cases hback : event.uri ∈ back.map Event.uri
      · rw [if_pos (.inr hback), if_neg hrest, List.filter_cons_of_neg (by simpa using hback)]
      · rw [if_neg (not_or.mpr ⟨hrest, hback⟩), if_neg hrest,
          List.filter_cons_of_pos (by simpa using hback), List.cons_append]

/-- The documents that later events name are where these events leave them, after all others. -/
theorem live_append (front back : List Event) :
    live (front ++ back) =
      (live front).filter (·.1 ∉ back.map Event.uri) ++ live back := by
  rw [live, lastEvents_append, List.filter_append, List.map_append, List.filter_comm, live,
    List.filter_map]
  rfl

theorem live_cons {event : Event} {rest : List Event} (hkind : event.kind ≠ .closed)
    (hlast : event.uri ∉ rest.map Event.uri) :
    live (event :: rest) = (event.uri, event.text) :: live rest := by
  rw [live, lastEvents, if_neg hlast, List.filter_cons_of_pos (by simpa using hkind),
    List.map_cons, live]

/-! ## Documents and their texts -/

section HasText

variable {events later otherLater : List Event} {uri text other otherText : String}

theorem HasText.exists_live (h : HasText events uri text later) :
    ∃ front, live events = front ++ (uri, text) :: live later ∧
      ∀ document ∈ front, document.1 ≠ uri ∧ document.1 ∉ later.map Event.uri := by
  obtain ⟨⟨earlier, event, rfl, rfl, rfl, hkind⟩, hlast⟩ := h
  refine ⟨(live earlier).filter (·.1 ∉ (event :: later).map Event.uri), ?_, ?_⟩
  · rw [live_append, live_cons hkind hlast]
  · intro document hdocument
    have hnot := (List.mem_filter.mp hdocument).2
    simpa [not_or] using hnot

theorem mem_live_iff_hasText :
    (uri, text) ∈ live events ↔ ∃ later, HasText events uri text later := by
  constructor
  · intro h
    induction events with
    | nil => cases h
    | cons event rest ih =>
      rw [← List.singleton_append, live_append, List.mem_append] at h
      rcases h with h | h
      · obtain ⟨hmem, hlast⟩ := List.mem_filter.mp h
        by_cases hkind : event.kind = .closed
        · simp [live, lastEvents, hkind] at hmem
        · rw [live_cons hkind List.not_mem_nil, List.mem_cons, Prod.mk.injEq] at hmem
          rcases hmem with ⟨rfl, rfl⟩ | hmem
          · exact ⟨rest, ⟨[], event, rfl, rfl, rfl, hkind⟩, by simpa using hlast⟩
          · exact absurd hmem List.not_mem_nil
      · obtain ⟨later, ⟨earlier, last, rfl, hgiven⟩, hlast⟩ := ih h
        exact ⟨later, ⟨event :: earlier, last, rfl, hgiven⟩, hlast⟩
  · rintro ⟨later, h⟩
    obtain ⟨front, hlive, -⟩ := h.exists_live
    rw [hlive]
    exact List.mem_append_right front List.mem_cons_self

theorem HasText.uri_mem (h : HasText events uri text later) : uri ∈ events.map Event.uri := by
  obtain ⟨earlier, event, rfl, rfl, -⟩ := h.given
  exact List.mem_map_of_mem (List.mem_append_right earlier List.mem_cons_self)

/-- Of two documents, the event of the one with fewer events after it comes after the event of the
other. -/
theorem HasText.suffix_of_length_lt (h : HasText events uri text later)
    (hother : HasText events other otherText otherLater) (hlt : later.length < otherLater.length) :
    ∃ event, event.uri = uri ∧ event :: later <:+ otherLater := by
  obtain ⟨earlier, event, hsplit, huri, -⟩ := h.given
  obtain ⟨otherEarlier, otherEvent, hotherSplit, -⟩ := hother.given
  refine ⟨event, huri, List.suffix_of_suffix_length_le ⟨earlier, hsplit.symm⟩ ?_ hlt⟩
  rw [hotherSplit, List.append_cons]
  exact List.suffix_append _ _

theorem HasText.uri_eq_or_mem (h : HasText events uri text later)
    (hother : HasText events other otherText otherLater)
    (hle : otherLater.length ≤ later.length) : other = uri ∨ other ∈ later.map Event.uri := by
  rcases Nat.lt_or_eq_of_le hle with hlt | heq
  · obtain ⟨event, rfl, hsuffix⟩ := hother.suffix_of_length_lt h hlt
    exact .inr (List.mem_map_of_mem (hsuffix.subset List.mem_cons_self))
  · obtain ⟨earlier, event, hsplit, huri, -⟩ := h.given
    obtain ⟨otherEarlier, otherEvent, hotherSplit, hotherUri, -⟩ := hother.given
    have hsame : otherEvent :: otherLater = event :: later :=
      (List.append_inj' (hotherSplit.symm.trans hsplit) (congrArg Nat.succ heq)).2
    obtain ⟨rfl, -⟩ := List.cons.inj hsame
    exact .inl (hotherUri.symm.trans huri)

/-- Of the documents with a property, the first in the list of the live ones is the one that has not
been opened or changed for the longest time. -/
theorem find?_live_eq_some_iff {p : String × String → Bool} :
    (live events).find? p = some (uri, text) ↔ p (uri, text) ∧
      ∃ later, HasText events uri text later ∧ ∀ other otherText otherLater,
        HasText events other otherText otherLater → p (other, otherText) →
          otherLater.length ≤ later.length := by
  constructor
  · intro hfind
    have hp := List.find?_some hfind
    obtain ⟨later, h⟩ := mem_live_iff_hasText.mp (List.mem_of_find?_eq_some hfind)
    refine ⟨hp, later, h, fun other otherText otherLater hother hpother ↦ ?_⟩
    by_contra hlt
    obtain ⟨event, hevent, hsuffix⟩ := h.suffix_of_length_lt hother (Nat.not_le.mp hlt)
    obtain ⟨front, hlive, hfront⟩ := h.exists_live
    have hmem := mem_live_iff_hasText.mpr ⟨otherLater, hother⟩
    rw [hlive, List.mem_append, List.mem_cons, Prod.mk.injEq] at hmem
    rcases hmem with hmem | ⟨rfl, -⟩ | hmem
    · -- The search would have stopped at a document of `front`.
      obtain ⟨first, hfirst⟩ := Option.isSome_iff_exists.mp
        (List.find?_isSome.mpr ⟨_, hmem, hpother⟩)
      rw [hlive, List.find?_append, hfirst, Option.some_or, Option.some_inj] at hfind
      exact (hfront first (List.mem_of_find?_eq_some hfirst)).1 (congrArg Prod.fst hfind)
    · exact hother.last (hevent ▸ List.mem_map_of_mem (hsuffix.subset List.mem_cons_self))
    · obtain ⟨newer, hnewer⟩ := mem_live_iff_hasText.mp hmem
      have hin := List.map_subset Event.uri ((List.suffix_cons event later).trans hsuffix).subset
      exact hother.last (hin hnewer.uri_mem)
  · rintro ⟨hp, later, h, holdest⟩
    obtain ⟨front, hlive, hfront⟩ := h.exists_live
    have hnone : front.find? p = none := by
      rw [List.find?_eq_none]
      intro document hdocument hpdocument
      have hmem : (document.1, document.2) ∈ live events := by
        rw [hlive]
        exact List.mem_append_left _ hdocument
      obtain ⟨otherLater, hother⟩ := mem_live_iff_hasText.mp hmem
      obtain ⟨hne, hnot⟩ := hfront document hdocument
      have hle := holdest document.1 document.2 otherLater hother hpdocument
      rcases h.uri_eq_or_mem hother hle with heq | hin
      · exact hne heq
      · exact hnot hin
    rw [hlive, List.find?_append, hnone, Option.none_or, List.find?_cons_of_pos hp]

end HasText

end ScriptSense.Workspace
