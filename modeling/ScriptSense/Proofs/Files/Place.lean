import Mathlib.Data.List.Induction
import Mathlib.Data.List.Nodup
import ScriptSense.Files.Tree
import ScriptSense.Proofs.Text.Lines
import ScriptSense.Proofs.Uri.Percent

/-!
# Places of files

A path is resolved to the names that lead to a file from the root. In a proper tree the entries of a
directory have distinct names that say nothing else in a path, so that the path of an entry leads to
the entry. An absolute path is resolved to some of its own names. The path that is made of these
names has nothing else between its slashes, so the names are read back from it.
-/

namespace ScriptSense.Files

/-- Whether an entry of a directory can have the name. -/
def isName (name : String) : Bool :=
  name != "" && name != "." && name != ".." && !name.toList.contains '/'

mutual

/-- The entries of every directory have names, and distinct ones. -/
def Node.isProper : Node → Bool
  | .file _ => true
  | .directory entries => (entries.map Prod.fst).Nodup && areProper entries

def areProper : List (String × Node) → Bool
  | [] => true
  | (name, node) :: rest => isName name && node.isProper && areProper rest

end

theorem isName_iff {name : String} :
    isName name ↔ name ≠ "" ∧ name ≠ "." ∧ name ≠ ".." ∧ '/' ∉ name.toList := by
  simp [isName, and_assoc]

theorem areProper_iff {entries : List (String × Node)} :
    areProper entries ↔ ∀ entry ∈ entries, isName entry.1 ∧ entry.2.isProper := by
  induction entries with
  | nil => simp [areProper]
  | cons entry rest ih =>
    obtain ⟨name, node⟩ := entry
    simp only [areProper, Bool.and_eq_true, List.forall_mem_cons, ih]

theorem isProper_directory_iff {entries : List (String × Node)} :
    (Node.directory entries).isProper ↔
      (entries.map Prod.fst).Nodup ∧ ∀ entry ∈ entries, isName entry.1 ∧ entry.2.isProper := by
  simp only [Node.isProper, Bool.and_eq_true, decide_eq_true_eq, areProper_iff]

namespace Node

theorem mem_of_entry_eq_some {entries : List (String × Node)} {name : String} {node : Node}
    (h : child? name (directory entries) = some node) : (name, node) ∈ entries := by
  obtain ⟨entry, hfind, rfl⟩ := Option.map_eq_some_iff.mp h
  have hname : entry.1 = name := by simpa using List.find?_some hfind
  rw [← hname]
  exact List.mem_of_find?_eq_some hfind

theorem isSome_child?_iff {entries : List (String × Node)} {name : String} :
    (child? name (directory entries)).isSome ↔ name ∈ entries.map Prod.fst := by
  simp [child?]

theorem child?_of_mem {entries : List (String × Node)} (h : (entries.map Prod.fst).Nodup)
    {name : String} {node : Node} (hmem : (name, node) ∈ entries) :
    child? name (directory entries) = some node := by
  have hsome := isSome_child?_iff.mpr (List.mem_map_of_mem hmem)
  obtain ⟨other, hother⟩ := Option.isSome_iff_exists.mp hsome
  have heq := List.inj_on_of_nodup_map h (mem_of_entry_eq_some hother) hmem rfl
  rw [hother, (Prod.mk.inj heq).2]

theorem descend?_append_singleton (root : Node) (place : List String) (name : String) :
    root.descend? (place ++ [name]) = (root.descend? place).bind fun node ↦ node.child? name := by
  simp [descend?, List.foldlM_append]

/-- What is in a proper tree is proper, and names lead to it. -/
theorem proper_of_descend? {root node : Node} (hroot : root.isProper) {place : List String}
    (h : root.descend? place = some node) : node.isProper ∧ ∀ name ∈ place, isName name := by
  induction place using List.reverseRecOn generalizing node with
  | nil =>
    obtain rfl := Option.some.inj h
    exact ⟨hroot, by simp⟩
  | append_singleton place name ih =>
    rw [descend?_append_singleton] at h
    obtain ⟨parent, hparent, hentry⟩ := Option.bind_eq_some_iff.mp h
    obtain ⟨hproper, hnames⟩ := ih hparent
    cases parent with
    | file bytes => cases hentry
    | directory entries =>
      have hmem := (isProper_directory_iff.mp hproper).2 _ (mem_of_entry_eq_some hentry)
      refine ⟨hmem.2, ?_⟩
      intro other hother
      rcases List.mem_append.mp hother with hother | hother
      · exact hnames other hother
      · rw [List.mem_singleton.mp hother]
        exact hmem.1

end Node

theorem pieces_append_slash (path rest : String) :
    pieces (path ++ "/" ++ rest) = pieces path ++ pieces rest := by
  have hslash : (path ++ "/" ++ rest).toList = path.toList ++ '/' :: rest.toList := by
    rw [String.toList_append, String.toList_append, List.append_assoc]
    rfl
  simp only [pieces, hslash, Text.splitAt_eq_splitOnP]
  rw [List.splitOnP_append_cons path.toList rest.toList rfl, List.map_append]

theorem pieces_of_slash_notMem {name : String} (h : '/' ∉ name.toList) : pieces name = [name] := by
  have hplain : ∀ c ∈ name.toList, (c == '/') = false := by
    intro c hc
    simpa using ne_of_mem_of_not_mem hc h
  rw [pieces, Text.splitAt_eq_splitOnP, List.splitOnP_eq_singleton hplain, List.map_singleton,
    String.ofList_toList]

theorem pieces_ne_nil (path : String) : pieces path ≠ [] := by
  simpa [pieces] using Text.splitAt_ne_nil _ _

/-- A joined path goes on from its directory by a name; a slash at the end of the directory's path
is one with the slash before the name. -/
theorem exists_pieces_join {path name : String} (hpath : path ≠ "") (hname : isName name) :
    ∃ start, pieces (join path name) = start ++ [name] ∧
      (pieces path = start ∨ pieces path = start ++ [""]) := by
  have hpiece : pieces name = [name] := pieces_of_slash_notMem (isName_iff.mp hname).2.2.2
  by_cases hslash : path.toList.getLast? = some '/'
  · obtain ⟨start, hstart⟩ := List.getLast?_eq_some_iff.mp hslash
    have hcut : path = String.ofList start ++ "/" := by
      rw [← String.toList_inj, hstart, String.toList_append, String.toList_ofList]
      rfl
    refine ⟨pieces (String.ofList start), ?_, .inr ?_⟩
    · rw [join, if_pos (.inr hslash), hcut, pieces_append_slash, hpiece]
    · have hempty := pieces_append_slash (String.ofList start) ""
      rwa [String.append_empty, ← hcut] at hempty
  · refine ⟨pieces path, ?_, .inl rfl⟩
    rw [join, if_neg (not_or.mpr ⟨hpath, hslash⟩), pieces_append_slash, hpiece]

theorem isAbsolute_join {path : String} (hpath : path ≠ "") (name : String) :
    isAbsolute (join path name) = isAbsolute path := by
  have hne : path.toList ≠ [] := by simpa using hpath
  have hhead (rest : String) : isAbsolute (path ++ rest) = isAbsolute path := by
    rw [isAbsolute, isAbsolute, String.toList_append, List.head?_append_of_ne_nil path.toList hne]
  unfold join
  split
  · exact hhead name
  · rw [String.append_assoc, hhead]

theorem join_ne_empty {path : String} (hpath : path ≠ "") (name : String) :
    join path name ≠ "" := by
  unfold join
  split <;> simp [hpath]

namespace Tree

theorem walk_append (root : Node) (place start rest : List String) :
    walk root place (start ++ rest) = (walk root place start).bind (walk root · rest) := by
  induction start generalizing place with
  | nil => rfl
  | cons piece start ih =>
    simp only [List.cons_append, walk]
    cases root.descend? place.reverse with
    | none => rfl
    | some node =>
      cases node with
      | file bytes => rfl
      | directory entries =>
        simp only [ih]
        split_ifs <;> rfl

theorem walk_empty {root : Node} {place last : List String} (h : walk root place [""] = .ok last) :
    last = place := by
  simp only [walk] at h
  split at h <;> simp_all

theorem walk_name {root : Node} {place : List String} {entries : List (String × Node)}
    {name : String} (hnode : root.descend? place.reverse = some (.directory entries))
    (hname : isName name) (hmem : name ∈ entries.map Prod.fst) :
    walk root place [name] = .ok (name :: place) := by
  obtain ⟨hempty, hdot, hdots, -⟩ := isName_iff.mp hname
  obtain ⟨entry, hentry, rfl⟩ := List.mem_map.mp hmem
  have hany : entries.any (·.1 == entry.1) := List.any_eq_true.mpr ⟨entry, hentry, by simp⟩
  simp only [walk, hnode]
  rw [if_neg (not_or.mpr ⟨hempty, hdot⟩), if_neg hdots, if_pos hany]

/-- Walking never leaves the tree. -/
theorem isSome_of_walk {root : Node} {place last pieces : List String}
    (h : walk root place pieces = .ok last) (hstart : (root.descend? place.reverse).isSome) :
    (root.descend? last.reverse).isSome := by
  fun_induction walk root place pieces with
  | case1 place =>
    obtain rfl := Except.ok.inj h
    exact hstart
  | case4 place piece rest entries hnode hsame ih => exact ih h hstart
  | case5 place rest entries hnode hmoved ih =>
    apply ih h
    cases place with
    | nil => exact hstart
    | cons name above =>
      rw [List.reverse_cons, Node.descend?_append_singleton] at hnode
      obtain ⟨parent, hparent, -⟩ := Option.bind_eq_some_iff.mp hnode
      exact Option.isSome_of_eq_some hparent
  | case6 place piece rest entries hnode hmoved hdown hfound ih =>
    apply ih h
    rw [List.reverse_cons, Node.descend?_append_singleton, hnode, Option.bind_some,
      Node.isSome_child?_iff]
    simpa using hfound
  | _ => cases h

/-! ## Resolved paths -/

variable {files : Tree} {path : String} {place : List String}

/-- Where the walk along a path starts, with the names in reverse. -/
def origin (files : Tree) (path : String) : List String :=
  if isAbsolute path then [] else files.working.reverse

theorem resolve_eq_ok_iff : files.resolve path = .ok place ↔
    path ≠ "" ∧ walk files.root (files.origin path) (pieces path) = .ok place.reverse := by
  have hmap : files.resolve path = if path = "" then .error .notFound
      else (walk files.root (files.origin path) (pieces path)).map List.reverse := rfl
  rw [hmap]
  by_cases hpath : path = ""
  · simp [hpath]
  · rw [if_neg hpath]
    cases walk files.root (files.origin path) (pieces path) with
    | error trouble => simp [Except.map]
    | ok last => simp [Except.map, hpath, List.reverse_eq_iff]

/-- A resolved path leads to a file or a directory. -/
theorem exists_node_of_resolve (h : files.resolve path = .ok place) :
    ∃ node, files.root.descend? place = some node := by
  obtain ⟨-, hwalk⟩ := resolve_eq_ok_iff.mp h
  have hstart : (files.root.descend? (files.origin path).reverse).isSome := by
    obtain ⟨piece, rest, hpieces⟩ := List.exists_cons_of_ne_nil (pieces_ne_nil path)
    rw [hpieces, walk] at hwalk
    cases hnode : files.root.descend? (files.origin path).reverse with
    | none => simp [hnode] at hwalk
    | some node => rfl
  have hlast := isSome_of_walk hwalk hstart
  rw [List.reverse_reverse] at hlast
  exact Option.isSome_iff_exists.mp hlast

theorem exists_resolve_of_readText {text : String} (h : files.readText path = .ok text) :
    ∃ place, files.resolve path = .ok place := by
  unfold readText at h
  cases hresolve : files.resolve path with
  | error trouble => simp [hresolve] at h
  | ok place => exact ⟨place, rfl⟩

theorem isName_of_resolve (hproper : files.root.isProper) (h : files.resolve path = .ok place) :
    ∀ name ∈ place, isName name := by
  obtain ⟨node, hnode⟩ := exists_node_of_resolve h
  exact (Node.proper_of_descend? hproper hnode).2

/-- The path of an entry leads to the entry. -/
theorem resolve_join {entries : List (String × Node)} {name : String}
    (h : files.resolve path = .ok place)
    (hnode : files.root.descend? place = some (.directory entries)) (hname : isName name)
    (hmem : name ∈ entries.map Prod.fst) :
    files.resolve (join path name) = .ok (place ++ [name]) := by
  obtain ⟨hpath, hwalk⟩ := resolve_eq_ok_iff.mp h
  obtain ⟨start, hjoin, hpieces⟩ := exists_pieces_join hpath hname
  have horigin : files.origin (join path name) = files.origin path := by
    rw [origin, isAbsolute_join hpath, origin]
  -- A slash at the end of the path leaves an empty piece, over which the walk stays where it is.
  have hstart : walk files.root (files.origin path) start = .ok place.reverse := by
    rcases hpieces with hpieces | hpieces
    · rw [← hpieces, hwalk]
    · rw [hpieces, walk_append] at hwalk
      cases hlast : walk files.root (files.origin path) start with
      | error trouble => simp [hlast, Except.bind] at hwalk
      | ok last =>
        rw [hlast] at hwalk
        rw [walk_empty hwalk]
  have hlast : walk files.root place.reverse [name] = .ok (name :: place.reverse) :=
    walk_name (by rwa [List.reverse_reverse]) hname hmem
  refine resolve_eq_ok_iff.mpr ⟨join_ne_empty hpath name, ?_⟩
  rw [horigin, hjoin, walk_append, hstart, List.reverse_append]
  exact hlast

end Tree

variable {place : List String}

theorem pieces_absolutePath (hne : place ≠ []) (h : ∀ name ∈ place, isName name) :
    pieces (absolutePath place) = "" :: place := by
  have hparts : ∀ part ∈ [] :: place.map String.toList, ∀ c ∈ part, (c == '/') = false := by
    intro part hpart c hc
    rcases List.mem_cons.mp hpart with rfl | hpart
    · exact absurd hc List.not_mem_nil
    · obtain ⟨name, hname, rfl⟩ := List.mem_map.mp hpart
      have hslash := (isName_iff.mp (h name hname)).2.2.2
      simpa using ne_of_mem_of_not_mem hc hslash
  have hsplit := @Text.splitAt_append_flatMap Char (· == '/') '/' rfl _ _ hparts
  rw [List.nil_append, List.flatMap_map] at hsplit
  rw [pieces, Uri.toList_absolutePath hne, hsplit, List.map_cons, List.map_map]
  simp

/-- The names of a file are read back from its canonical path. -/
theorem names_absolutePath (h : ∀ name ∈ place, isName name) :
    names (absolutePath place) = place := by
  by_cases hne : place = []
  · subst hne
    decide
  · rw [names, pieces_absolutePath hne h, List.filter_cons_of_neg (by simp),
      List.filter_eq_self]
    intro name hname
    obtain ⟨hempty, hdot, -⟩ := isName_iff.mp (h name hname)
    simp [hempty, hdot]

theorem isAbsolute_absolutePath (names : List String) : isAbsolute (absolutePath names) := by
  cases names with
  | nil => decide
  | cons name rest =>
    rw [isAbsolute, Uri.toList_absolutePath (by simp)]
    rfl

theorem slash_notMem_of_mem_pieces {path piece : String} (h : piece ∈ pieces path) :
    '/' ∉ piece.toList := by
  obtain ⟨part, hpart, rfl⟩ := List.mem_map.mp h
  rw [String.toList_ofList]
  exact fun hmem ↦ absurd (Text.isMark_of_mem_splitAt hpart hmem) (by decide)

namespace Tree

/-- Walking along the pieces of a path adds names only. -/
theorem isName_of_walk {root : Node} {place last pieces : List String}
    (h : walk root place pieces = .ok last) (hplace : ∀ name ∈ place, isName name)
    (hpieces : ∀ piece ∈ pieces, '/' ∉ piece.toList) : ∀ name ∈ last, isName name := by
  fun_induction walk root place pieces with
  | case1 place =>
    obtain rfl := Except.ok.inj h
    exact hplace
  | case4 place piece rest entries hnode hsame ih =>
    exact ih h hplace fun other hother ↦ hpieces other (List.mem_cons_of_mem _ hother)
  | case5 place rest entries hnode hmoved ih =>
    refine ih h ?_ fun other hother ↦ hpieces other (List.mem_cons_of_mem _ hother)
    exact fun name hname ↦ hplace name (List.mem_of_mem_tail hname)
  | case6 place piece rest entries hnode hmoved hdown hfound ih =>
    obtain ⟨hpiece, hrest⟩ := List.forall_mem_cons.mp hpieces
    obtain ⟨hempty, hdot⟩ := not_or.mp hmoved
    have hname : isName piece := isName_iff.mpr ⟨hempty, hdot, hdown, hpiece⟩
    exact ih h (List.forall_mem_cons.mpr ⟨hname, hplace⟩) hrest
  | _ => cases h

theorem isName_of_resolve_absolute {files : Tree} {path : String} {place : List String}
    (habsolute : isAbsolute path) (h : files.resolve path = .ok place) :
    ∀ name ∈ place, isName name := by
  obtain ⟨-, hwalk⟩ := resolve_eq_ok_iff.mp h
  rw [origin, if_pos habsolute] at hwalk
  have hnames := isName_of_walk hwalk (by simp) fun _ ↦ slash_notMem_of_mem_pieces
  exact fun name hname ↦ hnames name (List.mem_reverse.mpr hname)

end Tree

end ScriptSense.Files
