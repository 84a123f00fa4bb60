import ScriptSense.Files.Discovery
import ScriptSense.Proofs.Files.Place
import ScriptSense.Proofs.Uri.Percent

/-!
# Discovered scripts

Discovery goes down the tree once, so the paths that it finds lead to different places, and are
ordered by their names. A place has one URI, however the path to it is written.
-/

namespace ScriptSense.Files

theorem namesPrecede_cons_iff {a b : String} {as bs : List String} :
    namesPrecede (a :: as) (b :: bs) ↔ a < b ∨ a = b ∧ namesPrecede as bs := by
  rw [namesPrecede, Bool.or_eq_true, Bool.and_eq_true, decide_eq_true_eq, beq_iff_eq]

theorem namesPrecede_trans {a b c : List String} (hab : namesPrecede a b)
    (hbc : namesPrecede b c) : namesPrecede a c := by
  induction a generalizing b c with
  | nil => rfl
  | cons first as ih =>
    cases b with
    | nil => simp [namesPrecede] at hab
    | cons second bs =>
      cases c with
      | nil => simp [namesPrecede] at hbc
      | cons third cs =>
        rw [namesPrecede_cons_iff] at *
        rcases hab with hlt | ⟨rfl, hab⟩
        · rcases hbc with hlt' | ⟨rfl, -⟩
          · exact .inl (String.lt_trans hlt hlt')
          · exact .inl hlt
        · exact hbc.imp_right fun h ↦ ⟨h.1, ih hab h.2⟩

theorem namesPrecede_total (a b : List String) : namesPrecede a b ∨ namesPrecede b a := by
  induction a generalizing b with
  | nil => exact .inl rfl
  | cons first as ih =>
    cases b with
    | nil => exact .inr rfl
    | cons second bs =>
      rw [namesPrecede_cons_iff, namesPrecede_cons_iff]
      by_cases hlt : first < second
      · exact .inl (.inl hlt)
      · by_cases hgt : second < first
        · exact .inr (.inl hgt)
        · have heq : first = second :=
            String.le_antisymm (String.not_lt.mp hgt) (String.not_lt.mp hlt)
          exact (ih bs).imp (fun h ↦ .inr ⟨heq, h⟩) fun h ↦ .inr ⟨heq.symm, h⟩

theorem precedes_trans (a b c : String) (hab : precedes a b) (hbc : precedes b c) :
    precedes a c :=
  namesPrecede_trans hab hbc

theorem precedes_total (a b : String) : precedes a b || precedes b a :=
  Bool.or_eq_true _ _ ▸ namesPrecede_total (names a) (names b)

theorem pairwise_scripts (files : Tree) (root : String) :
    (files.scripts root).Pairwise (precedes · ·) := by
  unfold Tree.scripts
  split
  · exact .nil
  · split
    · exact .nil
    · exact List.pairwise_mergeSort precedes_trans precedes_total _

/-- The paths lead to different places, and to none that `p` does not allow. -/
structure LeadTo (files : Tree) (p : List String → Prop) (paths : List String) : Prop where
  allowed : ∀ path ∈ paths, ∃ place, files.resolve path = .ok place ∧ p place
  nodup : (paths.map files.resolve).Nodup

namespace LeadTo

variable {files : Tree} {p q : List String → Prop} {paths others : List String}

theorem nil (files : Tree) (p : List String → Prop) : LeadTo files p [] := ⟨by simp, by simp⟩

theorem singleton {path : String} {place : List String} (h : files.resolve path = .ok place)
    (hp : p place) : LeadTo files p [path] where
  allowed other hother := by
    rw [List.mem_singleton.mp hother]
    exact ⟨place, h, hp⟩
  nodup := List.nodup_singleton _

theorem imp (h : LeadTo files p paths) (hpq : ∀ place, p place → q place) :
    LeadTo files q paths where
  allowed path hpath := by
    obtain ⟨place, hplace, hp⟩ := h.allowed path hpath
    exact ⟨place, hplace, hpq place hp⟩
  nodup := h.nodup

theorem append (h : LeadTo files p paths) (hothers : LeadTo files q others)
    (hpq : ∀ place, p place → ¬q place) :
    LeadTo files (fun place ↦ p place ∨ q place) (paths ++ others) where
  allowed path hpath := by
    rcases List.mem_append.mp hpath with hpath | hpath
    · obtain ⟨place, hplace, hp⟩ := h.allowed path hpath
      exact ⟨place, hplace, .inl hp⟩
    · obtain ⟨place, hplace, hq⟩ := hothers.allowed path hpath
      exact ⟨place, hplace, .inr hq⟩
  nodup := by
    rw [List.map_append, List.nodup_append]
    refine ⟨h.nodup, hothers.nodup, ?_⟩
    intro resolved hresolved other hother heq
    obtain ⟨path, hpath, rfl⟩ := List.mem_map.mp hresolved
    obtain ⟨last, hlast, rfl⟩ := List.mem_map.mp hother
    obtain ⟨place, hplace, hp⟩ := h.allowed path hpath
    obtain ⟨otherPlace, hotherPlace, hq⟩ := hothers.allowed last hlast
    rw [hplace, hotherPlace] at heq
    exact hpq place hp (Except.ok.inj heq ▸ hq)

theorem filter (h : LeadTo files p paths) (keep : String → Bool) :
    LeadTo files p (paths.filter keep) where
  allowed path hpath := h.allowed path (List.mem_of_mem_filter hpath)
  nodup := h.nodup.sublist (List.filter_sublist.map files.resolve)

theorem perm (h : LeadTo files p paths) (hperm : others.Perm paths) : LeadTo files p others where
  allowed path hpath := h.allowed path (hperm.mem_iff.mp hpath)
  nodup := (hperm.map files.resolve).nodup_iff.mpr h.nodup

end LeadTo

/-- Names after which two places go on are the same if the places go on to the same one. -/
theorem name_eq_of_isPrefix {place found : List String} {name other : String}
    (h : place ++ [name] <+: found) (hother : place ++ [other] <+: found) : name = other := by
  have hbelow := List.prefix_of_prefix_length_le h hother (by simp)
  have heq := hbelow.eq_of_length (by simp)
  simpa using heq

namespace Discovery

variable {files : Tree}

mutual

/-- A file is found once, and what is found leads below the place where the search starts. -/
theorem leadTo_filesBelow (sets : List RuleSet) {path : String} {place : List String} :
    (node : Node) → node.isProper → files.resolve path = .ok place →
      files.root.descend? place = some node →
      LeadTo files (place <+: ·) (filesBelow sets path place node)
  | .file _, _, hresolve, _ => .singleton hresolve List.prefix_rfl
  | .directory entries, hproper, hresolve, hnode => by
    have hentries := leadTo_entryFiles (RuleSet.ofDirectory place (.directory entries) :: sets)
      entries hproper hresolve hnode (List.Sublist.refl entries)
    rw [filesBelow]
    apply hentries.imp
    rintro found ⟨name, -, hbelow⟩
    exact (List.prefix_append place [name]).trans hbelow

/-- Different entries have different names, so what is found in them leads to different places. -/
theorem leadTo_entryFiles (sets : List RuleSet) {path : String} {place : List String}
    {all : List (String × Node)} :
    (entries : List (String × Node)) → (Node.directory all).isProper →
      files.resolve path = .ok place → files.root.descend? place = some (.directory all) →
      entries.Sublist all →
      LeadTo files (fun found ↦ ∃ name ∈ entries.map Prod.fst, place ++ [name] <+: found)
        (entryFiles sets path place entries)
  | [], _, _, _, _ => .nil files _
  | (name, node) :: rest, hproper, hresolve, hnode, hsub => by
    obtain ⟨hnodup, hall⟩ := isProper_directory_iff.mp hproper
    have hmem : (name, node) ∈ all := hsub.subset List.mem_cons_self
    obtain ⟨hname, hnodeProper⟩ := hall _ hmem
    have hhere : LeadTo files (place ++ [name] <+: ·)
        (if RuleSet.ignores sets (place ++ [name]) node.isDirectory then []
          else filesBelow sets (join path name) (place ++ [name]) node) := by
      split
      · exact .nil files _
      · apply leadTo_filesBelow sets node hnodeProper
        · exact Tree.resolve_join hresolve hnode hname (List.mem_map_of_mem hmem)
        · rw [Node.descend?_append_singleton, hnode, Option.bind_some,
            Node.child?_of_mem hnodup hmem]
    have hrest := leadTo_entryFiles sets rest hproper hresolve hnode
      ((List.sublist_cons_self _ rest).trans hsub)
    have hfresh : name ∉ rest.map Prod.fst :=
      (List.nodup_cons.mp (hnodup.sublist (hsub.map Prod.fst))).1
    -- What is below this entry starts with its name, which no later entry has.
    rw [entryFiles]
    apply (hhere.append hrest _).imp
    · rintro found (hbelow | ⟨other, hother, hbelow⟩)
      · exact ⟨name, List.mem_cons_self, hbelow⟩
      · exact ⟨other, List.mem_cons_of_mem name hother, hbelow⟩
    · rintro found hbelow ⟨other, hother, hbelow'⟩
      exact hfresh (name_eq_of_isPrefix hbelow hbelow' ▸ hother)

end

end Discovery

namespace Tree

variable {files : Tree}

/-- The scripts below a path lead to different places below it. -/
theorem leadTo_scripts (hproper : files.root.isProper) (root : String) :
    LeadTo files (fun place ↦ ∃ top, files.resolve root = .ok top ∧ top <+: place)
      (files.scripts root) := by
  unfold scripts
  split
  · exact .nil files _
  · rename_i top htop
    split
    · exact .nil files _
    · rename_i node hnode
      have hbelow := Discovery.leadTo_filesBelow (Discovery.rulesAbove files.root top) node
        (Node.proper_of_descend? hproper hnode).1 htop hnode
      apply ((hbelow.filter isScript).perm (List.mergeSort_perm _ precedes)).imp
      intro place hplace
      exact ⟨top, htop, hplace⟩

theorem uri_eq_fileUri {path : String} {place : List String} (h : files.resolve path = .ok place) :
    files.uri path = fileUri place := by
  rw [uri, h]

/-- Two paths have one URI exactly if they lead to one place. -/
theorem uri_eq_iff (hproper : files.root.isProper) {a b : String} {place other : List String}
    (ha : files.resolve a = .ok place) (hb : files.resolve b = .ok other) :
    files.uri a = files.uri b ↔ files.resolve a = files.resolve b := by
  have hnames {path : String} {place : List String} (h : files.resolve path = .ok place) :
      ∀ name ∈ place, name ≠ "" :=
    fun name hname ↦ (isName_iff.mp (isName_of_resolve hproper h name hname)).1
  rw [uri_eq_fileUri ha, uri_eq_fileUri hb, ha, hb]
  constructor
  · intro huri
    rw [Uri.fileUri_injective (hnames ha) (hnames hb) huri]
  · intro hplace
    rw [Except.ok.inj hplace]

end Tree

/-- Paths that lead to different places have different URIs. -/
theorem LeadTo.nodup_uris {files : Tree} (hproper : files.root.isProper)
    {p : List String → Prop} {paths : List String} (h : LeadTo files p paths) :
    (paths.map files.uri).Nodup := by
  have hresolve := h.nodup
  rw [List.Nodup, List.pairwise_map] at hresolve ⊢
  apply hresolve.imp_of_mem
  intro path other hpath hother hne huri
  obtain ⟨place, hplace, -⟩ := h.allowed path hpath
  obtain ⟨otherPlace, hotherPlace, -⟩ := h.allowed other hother
  exact hne ((Tree.uri_eq_iff hproper hplace hotherPlace).mp huri)

end ScriptSense.Files
