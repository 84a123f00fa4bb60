import ScriptSense.Files.Discovery
import ScriptSense.Proofs.Files.Place
import ScriptSense.Proofs.Uri.Segments

/-!
# URIs of files are read back

The URI of a file is its own normal form, and the path of the file is read from it. Nothing in the
encoded names starts a query or a fragment, and each of them is a segment that the path takes as it
is.
-/

namespace ScriptSense.Uri

/-- The path of the file with the given names, each of them encoded. -/
def encodedPath (names : List String) : List Char :=
  (names.map fun name ↦ encode nameSet name.toList).flatMap ('/' :: ·)

/-- The URI of the file with the given names. -/
def ofNames (names : List String) : Uri :=
  ⟨"file", some ⟨[], [], none⟩, encodedPath names, none, none⟩

variable {names : List String} {text : List Char}

theorem text_ofNames (h : names ≠ []) : (ofNames names).text = Files.fileUri names := by
  rw [← String.toList_inj, toList_fileUri h, text, String.toList_append, String.toList_ofList]
  simp [ofNames, encodedPath, Authority.text, marked]

theorem stripped_eq_self (h : ∀ c ∈ text, 0x20 < c.toNat) : stripped text = text := by
  have hinner (part : List Char) (hpart : part ⊆ text) :
      part.dropWhile (fun c ↦ decide (c.toNat ≤ 0x20)) = part := by
    rw [List.dropWhile_eq_self_iff]
    intro hne
    simpa using h _ (hpart (List.getElem_mem hne))
  have hreverse := hinner text.reverse fun c hc ↦ List.mem_reverse.mp hc
  rw [stripped, hinner text fun _ hc ↦ hc, hreverse, List.reverse_reverse, List.filter_eq_self]
  intro c hc
  have hlt := h c hc
  have hne (d : Char) (hd : d.toNat ≤ 0x20) : c ≠ d := by
    rintro rfl
    omega
  simp [hne '\t' (by decide), hne '\n' (by decide), hne '\r' (by decide)]

theorem splitParts_eq_self (kind : SchemeKind) (hfragment : '#' ∉ text) (hquery : '?' ∉ text) :
    splitParts kind text = ⟨text, none, none⟩ := by
  have hplain (mark : Char) (hmark : mark ∉ text) : ∀ c ∈ text, (c != mark) = true := by
    intro c hc
    simpa using ne_of_mem_of_not_mem hc hmark
  have hbody := List.takeWhile_eq_self_iff.mpr (hplain '#' hfragment)
  have hpath := List.takeWhile_eq_self_iff.mpr (hplain '?' hquery)
  have hafter := List.dropWhile_eq_nil_iff.mpr (hplain '#' hfragment)
  have hsearch := List.dropWhile_eq_nil_iff.mpr (hplain '?' hquery)
  simp only [splitParts, hbody, hpath, hafter, hsearch, List.tail?_nil, Option.map_none]

theorem parseFile_of_local (rest : List Char) :
    parseFile ⟨'/' :: '/' :: '/' :: rest, none, none⟩ =
      .ok ⟨"file", some ⟨[], [], none⟩, buildPath .file ['/'] rest, none, none⟩ := by
  have hhost (path : List Char) : (if beginsWithDrive path then [] else []) = ([] : List Char) :=
    ite_self []
  have hfile : parseFile ⟨'/' :: '/' :: '/' :: rest, none, none⟩ =
      .ok (fileUri ⟨'/' :: '/' :: '/' :: rest, none, none⟩ [] (buildPath .file ['/'] rest)) := rfl
  rw [hfile, fileUri, hhost]

theorem exists_encodedPath_eq_cons (h : names ≠ []) : ∃ more, encodedPath names = '/' :: more := by
  obtain ⟨name, rest, rfl⟩ := List.exists_cons_of_ne_nil h
  exact ⟨_, rfl⟩

/-- A slash or a character that needs no encoding. -/
theorem eq_slash_or_of_mem_encodedPath {c : Char} (h : c ∈ encodedPath names) :
    c = '/' ∨ mustEncode segmentSet c = false := by
  obtain ⟨segment, hsegment, hc⟩ := List.mem_flatMap.mp h
  obtain ⟨name, -, rfl⟩ := List.mem_map.mp hsegment
  exact (List.mem_cons.mp hc).imp id mustEncode_eq_false_of_mem_encode

theorem lt_toNat_of_mem_encodedPath {c : Char} (h : c ∈ encodedPath names) : 0x20 < c.toNat := by
  rcases eq_slash_or_of_mem_encodedPath h with rfl | hc
  · decide
  · have hspace : c ≠ ' ' := ne_of_mustEncode hc (by decide)
    have hcode : c.toNat ≠ 0x20 := fun heq ↦ hspace (Char.toNat_inj.mp heq)
    have hcontrol : isControl c = false := by
      simp only [mustEncode, Bool.or_eq_false_iff] at hc
      exact hc.1.1
    simp only [isControl, Bool.or_eq_false_iff, decide_eq_false_iff_not] at hcontrol
    omega

theorem notMem_encodedPath {mark : Char} (hmark : mustEncode segmentSet mark)
    (hslash : mark ≠ '/') : mark ∉ encodedPath names := by
  intro h
  rcases eq_slash_or_of_mem_encodedPath h with heq | hc
  · exact hslash heq
  · exact ne_of_mustEncode hc hmark rfl

theorem buildPath_encodedPath (hne : names ≠ []) (hname : ∀ name ∈ names, Files.isName name)
    (hdrive : ∀ name ∈ names, isDrive name.toList = false) :
    buildPath .file ['/'] (encodedPath names).tail = encodedPath names := by
  obtain ⟨name, rest, rfl⟩ := List.exists_cons_of_ne_nil hne
  have hplain : ∀ segment ∈ (name :: rest).map fun name ↦ encode nameSet name.toList,
      IsPlain segment := by
    intro segment hsegment
    obtain ⟨other, hother, rfl⟩ := List.mem_map.mp hsegment
    obtain ⟨-, hsingle, hdouble, -⟩ := Files.isName_iff.mp (hname other hother)
    exact isPlain_encode hsingle hdouble (hdrive other hother)
  have hfirst : encode nameSet name.toList ≠ [] := by
    intro heq
    have hempty : name.toList = [] := eq_of_decode_encode (by decide) (congrArg decode heq)
    exact (Files.isName_iff.mp (hname name List.mem_cons_self)).1 (by simpa using hempty)
  exact buildPath_of_isPlain hplain hfirst

theorem stripped_fileUri (h : names ≠ []) : stripped (Files.fileUri names).toList =
    ['f', 'i', 'l', 'e', ':', '/', '/'] ++ encodedPath names := by
  have htext : (Files.fileUri names).toList =
      ['f', 'i', 'l', 'e', ':', '/', '/'] ++ encodedPath names :=
    toList_fileUri h
  have hscheme : ∀ c ∈ ['f', 'i', 'l', 'e', ':', '/', '/'], 0x20 < c.toNat := by simp
  rw [htext]
  apply stripped_eq_self
  intro c hc
  exact (List.mem_append.mp hc).elim (hscheme c) lt_toNat_of_mem_encodedPath

/-- The URI of a file is read as what it was written from. -/
theorem parse_fileUri (hne : names ≠ []) (hname : ∀ name ∈ names, Files.isName name)
    (hdrive : ∀ name ∈ names, isDrive name.toList = false) :
    parse (Files.fileUri names) = .ok (ofNames names) := by
  obtain ⟨more, hmore⟩ := exists_encodedPath_eq_cons hne
  have hstripped := stripped_fileUri hne
  rw [hmore] at hstripped
  have hscheme : splitScheme (['f', 'i', 'l', 'e', ':', '/', '/'] ++ '/' :: more) =
      some ("file", '/' :: '/' :: '/' :: more) := rfl
  have hparts : splitParts .file ('/' :: '/' :: '/' :: more) =
      ⟨'/' :: '/' :: '/' :: more, none, none⟩ := by
    have hmark {mark : Char} (hmust : mustEncode segmentSet mark) (hslash : mark ≠ '/') :
        mark ∉ '/' :: '/' :: '/' :: more := by
      have hpath := hmore ▸ @notMem_encodedPath names mark hmust hslash
      simpa [hslash] using hpath
    exact splitParts_eq_self .file (hmark (by decide) (by decide)) (hmark (by decide) (by decide))
  have hkind : schemeKind "file" = .file := by decide
  have hbuild := buildPath_encodedPath hne hname hdrive
  rw [hmore, List.tail_cons] at hbuild
  simp only [parse, hstripped, hscheme, hkind, hparts, parseFile_of_local, hbuild]
  rw [ofNames, hmore]

/-- The URI of a file is its own normal form. -/
theorem normalize_fileUri (hne : names ≠ []) (hname : ∀ name ∈ names, Files.isName name)
    (hdrive : ∀ name ∈ names, isDrive name.toList = false) :
    normalize (Files.fileUri names) = .ok (Files.fileUri names) := by
  rw [normalize, parse_fileUri hne hname hdrive]
  exact congrArg Except.ok (text_ofNames hne)

theorem decode_encodedPath (names : List String) :
    decode (encodedPath names) =
      Text.encodeUtf8 (names.flatMap fun name ↦ '/' :: name.toList) := by
  induction names with
  | nil => rfl
  | cons name rest ih =>
    have hslash (text : List Char) : decode ('/' :: text) = Text.encodeUtf8 ['/'] ++ decode text :=
      rfl
    rw [encodedPath] at ih
    rw [encodedPath, List.map_cons, List.flatMap_cons, List.flatMap_cons, List.cons_append, hslash,
      decode_encode_append (by decide), ih, ← Text.encodeUtf8_append, ← Text.encodeUtf8_append]
    rfl

/-- The path of a script is read from its URI. With the extension at its end, it does not end in a
drive letter, to which a slash would be added. -/
theorem filePath?_ofNames (hne : names ≠ [])
    (hscript : Files.scriptExtension.toList <:+ (Files.absolutePath names).toList) :
    filePath? (ofNames names) = some (Text.encodeUtf8 (Files.absolutePath names).toList) := by
  obtain ⟨more, hmore⟩ := exists_encodedPath_eq_cons hne
  have hpath : '/'.toNat.toUInt8 :: decode more =
      Text.encodeUtf8 (Files.absolutePath names).toList := by
    rw [toList_absolutePath hne, ← decode_encodedPath, hmore]
    rfl
  obtain ⟨stem, hstem⟩ := hscript
  have hlast : (Text.encodeUtf8 (Files.absolutePath names).toList).reverse.take 2 =
      ['u'.toNat.toUInt8, 'm'.toNat.toUInt8] := by
    have hextension : (Text.encodeUtf8 Files.scriptExtension.toList).reverse =
      ['u'.toNat.toUInt8, 'm'.toNat.toUInt8, 'n'.toNat.toUInt8, 'i'.toNat.toUInt8] := by decide
    rw [← hstem, Text.encodeUtf8_append, List.reverse_append, hextension]
    rfl
  have hmark : isDriveMark (Char.ofNat 'u'.toNat.toUInt8.toNat) = false := by decide
  simp only [filePath?, ofNames, hmore, hpath, hlast, hmark]
  simp

end ScriptSense.Uri
