import ScriptSense.Proofs.Files.Place
import ScriptSense.Proofs.Text.Utf8

/-!
# Writing to a file

A file that can be read can be written, and is then read as what was written. A path leads where it
led before, since only the contents of a file are new. A second text leaves nothing of the first.
-/

namespace ScriptSense.Files

namespace Node

/-- What a path can tell of a node: the names in a directory, and nothing of a file. -/
def names? : Node → Option (List String)
  | .file _ => none
  | .directory entries => some (entries.map Prod.fst)

theorem descend?_cons (node : Node) (name : String) (rest : List String) :
    node.descend? (name :: rest) = (node.child? name).bind (·.descend? rest) :=
  List.foldlM_cons

section Entries

variable {entries : List (String × Node)} {node changed new : Node} {name other : String}
  {rest : List String}

/-- The entries with the node at `name` replaced. -/
def replaceEntry (name : String) (changed : Node) (entries : List (String × Node)) :
    List (String × Node) :=
  entries.map fun entry ↦ if entry.1 = name then (name, changed) else entry

theorem map_fst_replaceEntry (name : String) (changed : Node) (entries : List (String × Node)) :
    (replaceEntry name changed entries).map Prod.fst = entries.map Prod.fst := by
  rw [replaceEntry, List.map_map]
  apply List.map_congr_left
  intro entry _
  rw [Function.comp_apply]
  split
  · exact Eq.symm ‹_›
  · rfl

theorem replaceEntry_replaceEntry (first second : Node) :
    replaceEntry name second (replaceEntry name first entries) =
      replaceEntry name second entries := by
  rw [replaceEntry, replaceEntry, List.map_map, replaceEntry]
  apply List.map_congr_left
  intro entry _
  by_cases h : entry.1 = name <;> simp [h]

theorem child?_replaceEntry_self (h : (child? name (directory entries)).isSome) :
    child? name (directory (replaceEntry name changed entries)) = some changed := by
  induction entries with
  | nil => contradiction
  | cons entry entries ih =>
    by_cases hname : entry.1 = name
    · simp [child?, replaceEntry, hname]
    · have hrest : (child? name (directory entries)).isSome := by
        simpa [child?, hname] using h
      have hih := ih hrest
      simpa [child?, replaceEntry, hname] using hih

theorem child?_replaceEntry_of_ne (h : other ≠ name) :
    child? other (directory (replaceEntry name changed entries)) =
      child? other (directory entries) := by
  induction entries with
  | nil => rfl
  | cons entry entries ih =>
    by_cases hname : entry.1 = name
    · simpa [child?, replaceEntry, hname, h.symm] using ih
    · by_cases hother : entry.1 = other
      · simp [child?, replaceEntry, hother, h]
      · simpa [child?, replaceEntry, hname, hother] using ih

end Entries

section Put

variable {node child old new : Node} {name : String} {names : List String}

theorem exists_entries_of_child? (h : node.child? name = some child) :
    ∃ entries, node = directory entries := by
  cases node with
  | file bytes => cases h
  | directory entries => exact ⟨entries, rfl⟩

theorem put_cons (h : node.child? name = some child) (names : List String) (new : Node) :
    node.put (name :: names) new =
      directory (replaceEntry name (child.put names new) node.entries) := by
  rw [put, h]
  rfl

theorem child?_put_cons (h : node.child? name = some child) (names : List String) (new : Node) :
    child? name (node.put (name :: names) new) = some (child.put names new) := by
  obtain ⟨entries, rfl⟩ := exists_entries_of_child? h
  rw [put_cons h]
  exact child?_replaceEntry_self (Option.isSome_of_eq_some h)

/-- What is put where something was is found there. -/
theorem descend?_put (h : node.descend? names = some old) (new : Node) :
    (node.put names new).descend? names = some new := by
  induction names generalizing node with
  | nil => rfl
  | cons name names ih =>
    rw [descend?_cons] at h
    obtain ⟨child, hchild, hrest⟩ := Option.bind_eq_some_iff.mp h
    rw [descend?_cons, child?_put_cons hchild, Option.bind_some, ih hrest]

/-- Of two nodes that are put in one place, the first leaves nothing. -/
theorem put_put (h : node.descend? names = some old) (first second : Node) :
    (node.put names first).put names second = node.put names second := by
  induction names generalizing node with
  | nil => rfl
  | cons name names ih =>
    rw [descend?_cons] at h
    obtain ⟨child, hchild, hrest⟩ := Option.bind_eq_some_iff.mp h
    rw [put_cons (child?_put_cons hchild names first), put_cons hchild names first, entries,
      replaceEntry_replaceEntry, ih hrest, ← put_cons hchild]

/-- The contents of a file are nothing that a path can tell. -/
theorem map_names?_descend?_put {before after : List UInt8}
    (h : node.descend? names = some (file before)) (place : List String) :
    ((node.put names (file after)).descend? place).map names? =
      (node.descend? place).map names? := by
  induction names generalizing node place with
  | nil =>
    obtain rfl := Option.some.inj h
    cases place <;> rfl
  | cons name names ih =>
    rw [descend?_cons] at h
    obtain ⟨child, hchild, hrest⟩ := Option.bind_eq_some_iff.mp h
    obtain ⟨entries, rfl⟩ := exists_entries_of_child? hchild
    cases place with
    | nil =>
      rw [put_cons hchild]
      exact congrArg (some ∘ some) (map_fst_replaceEntry name _ entries)
    | cons other place =>
      by_cases hname : other = name
      · subst hname
        rw [descend?_cons, child?_put_cons hchild, descend?_cons, hchild]
        exact ih hrest place
      · rw [descend?_cons, descend?_cons, put_cons hchild]
        exact congrArg (fun node : Option Node ↦ (node.bind (·.descend? place)).map names?)
          (child?_replaceEntry_of_ne hname)

end Put

end Node

namespace Tree

/-- A walk depends on what paths can tell of the nodes. -/
theorem walk_congr {root other : Node}
    (h : ∀ place, (root.descend? place).map Node.names? = (other.descend? place).map Node.names?)
    (place pieces : List String) : walk root place pieces = walk other place pieces := by
  induction pieces generalizing place with
  | nil => rfl
  | cons piece rest ih =>
    have hnode := h place.reverse
    rw [walk, walk]
    cases hroot : root.descend? place.reverse with
    | none =>
      rw [hroot] at hnode
      rw [Option.map_eq_none_iff.mp hnode.symm]
    | some node =>
      rw [hroot] at hnode
      obtain ⟨node', hother, hnames⟩ := Option.map_eq_some_iff.mp hnode.symm
      rw [hother]
      cases node with
      | file bytes =>
        cases node' with
        | file bytes' => rfl
        | directory entries' => cases hnames
      | directory entries =>
        cases node' with
        | file bytes' => cases hnames
        | directory entries' =>
          have hany : entries.any (·.1 == piece) = entries'.any (·.1 == piece) := by
            have hfst : entries'.map Prod.fst = entries.map Prod.fst := Option.some.inj hnames
            have hmap := congrArg (List.any · (· == piece)) hfst
            rw [List.any_map, List.any_map] at hmap
            exact hmap.symm
          simp only [ih, hany]

section Writing

variable {files written : Tree} {path old text : String} {place : List String} {bytes : List UInt8}

theorem exists_file_of_readText (h : files.readText path = .ok text) :
    ∃ place bytes, files.resolve path = .ok place ∧
      files.root.descend? place = some (.file bytes) := by
  obtain ⟨place, hresolve⟩ := exists_resolve_of_readText h
  rw [readText, hresolve] at h
  simp only at h
  split at h
  · contradiction
  · contradiction
  · rename_i bytes hnode
    exact ⟨place, bytes, hresolve, hnode⟩

/-- The tree with another text in the file at `place`. -/
def withText (files : Tree) (place : List String) (text : String) : Tree :=
  { files with root := files.root.put place (.file (Text.encodeUtf8 text.toList)) }

theorem writeText_eq_withText (hresolve : files.resolve path = .ok place)
    (hnode : files.root.descend? place = some (.file bytes)) (text : String) :
    files.writeText path text = .ok (files.withText place text) := by
  rw [writeText, hresolve]
  simp only [hnode]
  rfl

theorem resolve_withText (hnode : files.root.descend? place = some (.file bytes))
    (text path : String) : (files.withText place text).resolve path = files.resolve path := by
  have hwalk : walk (files.withText place text).root = walk files.root := by
    funext start pieces
    exact walk_congr (Node.map_names?_descend?_put hnode) start pieces
  rw [resolve, resolve, hwalk]
  rfl

/-- A file that can be read can be written. -/
theorem exists_writeText (h : files.readText path = .ok old) (text : String) :
    ∃ written, files.writeText path text = .ok written := by
  obtain ⟨place, bytes, hresolve, hnode⟩ := exists_file_of_readText h
  exact ⟨_, writeText_eq_withText hresolve hnode text⟩

theorem exists_eq_withText (h : files.readText path = .ok old)
    (hwritten : files.writeText path text = .ok written) :
    ∃ place bytes, files.resolve path = .ok place ∧
      files.root.descend? place = some (.file bytes) ∧ written = files.withText place text := by
  obtain ⟨place, bytes, hresolve, hnode⟩ := exists_file_of_readText h
  rw [writeText_eq_withText hresolve hnode] at hwritten
  exact ⟨place, bytes, hresolve, hnode, (Except.ok.inj hwritten).symm⟩

/-- What was written is read. -/
theorem readText_of_writeText (h : files.readText path = .ok old)
    (hwritten : files.writeText path text = .ok written) : written.readText path = .ok text := by
  obtain ⟨place, bytes, hresolve, hnode, rfl⟩ := exists_eq_withText h hwritten
  have hnew : (files.withText place text).root.descend? place =
      some (.file (Text.encodeUtf8 text.toList)) := Node.descend?_put hnode _
  rw [readText, resolve_withText hnode, hresolve]
  simp only [hnew, Text.decodeUtf8?_encodeUtf8, String.ofList_toList]

/-- A text that is written over leaves nothing. -/
theorem writeText_of_writeText (h : files.readText path = .ok old)
    (hwritten : files.writeText path text = .ok written) (next : String) :
    written.writeText path next = files.writeText path next := by
  obtain ⟨place, bytes, hresolve, hnode, rfl⟩ := exists_eq_withText h hwritten
  have hnew := Node.descend?_put hnode (.file (Text.encodeUtf8 text.toList))
  have hsecond : (files.withText place text).resolve path = .ok place := by
    rw [resolve_withText hnode, hresolve]
  have hover : (files.withText place text).withText place next = files.withText place next :=
    congrArg (fun root ↦ { files with root := root }) (Node.put_put hnode _ _)
  rw [writeText_eq_withText hsecond hnew, hover, writeText_eq_withText hresolve hnode]

end Writing

end Tree

end ScriptSense.Files
