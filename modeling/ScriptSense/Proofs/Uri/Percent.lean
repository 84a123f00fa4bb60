import Mathlib.Data.List.DropRight
import ScriptSense.Files.Tree
import ScriptSense.Proofs.Text.Cuts
import ScriptSense.Proofs.Text.Utf8

/-!
# A file has one URI

A text that starts as the URI of a local file does is always a URI. Whatever the file is called, an
answer about it therefore has a form for editors. The encoding of a name can be read back, and it
has no slashes. The names of a file can therefore be told from its URI, and two files do not share
one.
-/

namespace ScriptSense.Uri

/-- How the URI of a local file starts. -/
def filePrefix : List Char := ['f', 'i', 'l', 'e', ':', '/', '/', '/']

theorem rdropWhile_append {p : Char → Bool} {start : List Char} {last : Char}
    (hlast : p last = false) (text : List Char) :
    ∃ rest, (start ++ last :: text).rdropWhile p = start ++ last :: rest := by
  induction text using List.reverseRecOn with
  | nil =>
    refine ⟨[], ?_⟩
    rw [List.rdropWhile_concat, if_neg (by simp [hlast])]
  | append_singleton text c ih =>
    have hassoc : start ++ last :: (text ++ [c]) = (start ++ last :: text) ++ [c] := by simp
    rw [hassoc, List.rdropWhile_concat]
    split
    · exact ih
    · exact ⟨text ++ [c], by simp⟩

/-- What is taken away at the ends and inside of a text leaves its start alone. -/
theorem stripped_filePrefix (text : List Char) :
    ∃ rest, stripped (filePrefix ++ text) = filePrefix ++ rest := by
  have hlast : decide ('/'.toNat ≤ 0x20) = false := by decide
  obtain ⟨inner, hinner⟩ := @rdropWhile_append (fun c ↦ decide (c.toNat ≤ 0x20))
    ['f', 'i', 'l', 'e', ':', '/', '/'] '/' hlast text
  have hstripped : stripped (filePrefix ++ text) =
      ((filePrefix ++ text).rdropWhile fun c ↦ decide (c.toNat ≤ 0x20)).filter
        fun c ↦ c != '\t' && c != '\n' && c != '\r' := rfl
  have hstart : filePrefix ++ text = ['f', 'i', 'l', 'e', ':', '/', '/'] ++ '/' :: text := rfl
  rw [hstripped, hstart, hinner, List.filter_append]
  exact ⟨_, rfl⟩

/-- The text is the URI of a file whose path may be anything. -/
theorem parse_filePrefix {text : String} {rest : List Char} (h : text.toList = filePrefix ++ rest) :
    ∃ uri, parse text = .ok uri := by
  obtain ⟨kept, hkept⟩ := stripped_filePrefix rest
  have hscheme : splitScheme (filePrefix ++ kept) = some ("file", ['/', '/', '/'] ++ kept) := by
    rfl
  have hkind : schemeKind "file" = .file := by decide
  obtain ⟨more, hbody⟩ : ∃ more,
      (splitParts .file (['/', '/', '/'] ++ kept)).body = '/' :: '/' :: '/' :: more :=
    ⟨_, rfl⟩
  simp only [parse, h, hkept, hscheme, hkind, parseFile, hbody]
  exact ⟨_, rfl⟩

theorem toList_absolutePath {names : List String} (h : names ≠ []) :
    (Files.absolutePath names).toList = names.flatMap fun name ↦ '/' :: name.toList := by
  rw [Files.absolutePath, if_neg (by simpa using h), String.toList_join, List.flatMap_map]
  simp only [String.toList_append]
  rfl

theorem exists_toList_fileUri (names : List String) :
    ∃ rest, (Files.fileUri names).toList = filePrefix ++ rest := by
  have hscheme : "file://".toList = ['f', 'i', 'l', 'e', ':', '/', '/'] := rfl
  rw [Files.fileUri, String.toList_append, hscheme]
  cases names with
  | nil => exact ⟨[], rfl⟩
  | cons name rest =>
    rw [toList_absolutePath (by simp), List.map_cons, List.flatMap_cons]
    simp only [filePrefix, List.cons_append, List.nil_append]
    exact ⟨_, rfl⟩

/-- The URI of a file has a normal form. -/
theorem exists_normalize_fileUri (names : List String) :
    ∃ text, normalize (Files.fileUri names) = .ok text := by
  obtain ⟨rest, hrest⟩ := exists_toList_fileUri names
  obtain ⟨uri, huri⟩ := parse_filePrefix hrest
  exact ⟨uri.text, by rw [normalize, huri]⟩

theorem hexValue?_hexDigit {n : Nat} (h : n < 16) : hexValue? (hexDigit n) = some n.toUInt8 := by
  have hall : ∀ n < 16, hexValue? (hexDigit n) = some n.toUInt8 := by decide
  exact hall n h

theorem decode_encodeByte (b : UInt8) (rest : List Char) :
    decode (encodeByte b ++ rest) = b :: decode rest := by
  have hb := b.toNat_lt
  have hhigh := hexValue?_hexDigit (n := b.toNat / 16) (by omega)
  have hlow := hexValue?_hexDigit (n := b.toNat % 16) (by omega)
  have hbyte : (b.toNat / 16).toUInt8 * 16 + (b.toNat % 16).toUInt8 = b := by
    apply UInt8.toNat_inj.mp
    simp
    omega
  simp only [encodeByte, List.cons_append, List.nil_append, decode, hhigh, hlow, hbyte]

theorem decode_flatMap_encodeByte (bytes : List UInt8) (rest : List Char) :
    decode (bytes.flatMap encodeByte ++ rest) = bytes ++ decode rest := by
  induction bytes with
  | nil => rfl
  | cons b bytes ih =>
    rw [List.flatMap_cons, List.append_assoc, decode_encodeByte, ih, List.cons_append]

/-- A percent sign is itself encoded, so it can be read back which characters were. -/
theorem decode_encodeChar {set : List Char} (hset : '%' ∈ set) (c : Char) (rest : List Char) :
    decode (encodeChar set c ++ rest) = String.utf8EncodeChar c ++ decode rest := by
  unfold encodeChar
  split
  · exact decode_flatMap_encodeByte _ rest
  · rename_i hplain
    have hne : c ≠ '%' := by
      rintro rfl
      simp [mustEncode, hset] at hplain
    rw [List.singleton_append, decode]
    exact fun _ _ _ heq ↦ absurd heq hne

theorem decode_encode_append {set : List Char} (hset : '%' ∈ set) (text rest : List Char) :
    decode (encode set text ++ rest) = Text.encodeUtf8 text ++ decode rest := by
  induction text with
  | nil => rfl
  | cons c text ih =>
    rw [encode, List.flatMap_cons, ← encode, List.append_assoc, decode_encodeChar hset, ih,
      Text.encodeUtf8, Text.encodeUtf8, List.flatMap_cons, List.append_assoc]

theorem decode_encode {set : List Char} (hset : '%' ∈ set) (text : List Char) :
    decode (encode set text) = Text.encodeUtf8 text := by
  have hread := decode_encode_append hset text []
  rwa [List.append_nil, decode, List.append_nil] at hread

theorem encode_injective {set : List Char} (hset : '%' ∈ set) {a b : String}
    (h : encode set a.toList = encode set b.toList) : a = b := by
  have hbytes := congrArg decode h
  rw [decode_encode hset, decode_encode hset] at hbytes
  exact String.toList_inj.mp (Text.encodeUtf8_injective hbytes)

theorem slash_notMem_encode {set : List Char} (hset : '/' ∈ set) (text : List Char) :
    '/' ∉ encode set text := by
  intro hmem
  obtain ⟨c, -, hmem⟩ := List.mem_flatMap.mp hmem
  unfold encodeChar at hmem
  split at hmem
  · obtain ⟨b, -, hmem⟩ := List.mem_flatMap.mp hmem
    have hb := b.toNat_lt
    have hdigit : ∀ n < 16, '/' ≠ hexDigit n := by decide
    have hhigh := hdigit (b.toNat / 16) (by omega)
    have hlow := hdigit (b.toNat % 16) (by omega)
    simp [encodeByte, hhigh, hlow] at hmem
  · rename_i hplain
    obtain rfl := List.mem_singleton.mp hmem
    simp [mustEncode, hset] at hplain

/-- Texts without slashes can be told apart in a path. -/
theorem flatMap_slash_injective {a b : List (List Char)} (ha : ∀ name ∈ a, '/' ∉ name)
    (hb : ∀ name ∈ b, '/' ∉ name) (h : a.flatMap ('/' :: ·) = b.flatMap ('/' :: ·)) : a = b := by
  induction a generalizing b with
  | nil =>
    cases b with
    | nil => rfl
    | cons name rest => simp at h
  | cons name rest ih =>
    cases b with
    | nil => simp at h
    | cons other others =>
      rw [List.flatMap_cons, List.flatMap_cons, List.cons_append, List.cons_append] at h
      obtain ⟨-, h⟩ := List.cons.inj h
      have hplain (name : List Char) (hname : '/' ∉ name) : ∀ c ∈ name, (c != '/') = true := by
        intro c hc
        simpa using ne_of_mem_of_not_mem hc hname
      have hslash (names : List (List Char)) :
          ∀ c ∈ (names.flatMap ('/' :: ·)).head?, (c != '/') = false := by
        cases names <;> simp
      have hname := hplain name (ha name List.mem_cons_self)
      have hother := hplain other (hb other List.mem_cons_self)
      have hfirst := congrArg (List.takeWhile (· != '/')) h
      have hrest := congrArg (List.dropWhile (· != '/')) h
      rw [Text.takeWhile_append_of_head? hname (hslash rest),
        Text.takeWhile_append_of_head? hother (hslash others)] at hfirst
      rw [Text.dropWhile_append_of_head? hname (hslash rest),
        Text.dropWhile_append_of_head? hother (hslash others)] at hrest
      rw [hfirst, ih (fun name hmem ↦ ha name (List.mem_cons_of_mem _ hmem))
        (fun name hmem ↦ hb name (List.mem_cons_of_mem _ hmem)) hrest]

/-- A path from the root, with its names encoded. -/
theorem toList_fileUri {names : List String} (h : names ≠ []) :
    (Files.fileUri names).toList = ['f', 'i', 'l', 'e', ':', '/', '/'] ++
      (names.map fun name ↦ encode nameSet name.toList).flatMap ('/' :: ·) := by
  rw [Files.fileUri, String.toList_append, toList_absolutePath (by simpa using h), List.flatMap_map,
    List.flatMap_map]
  simp only [String.toList_ofList]
  rfl

theorem fileUri_ne_root {names : List String} (hne : names ≠ []) (h : ∀ name ∈ names, name ≠ "") :
    Files.fileUri names ≠ Files.fileUri [] := by
  obtain ⟨name, rest, rfl⟩ := List.exists_cons_of_ne_nil hne
  intro heq
  have htext := congrArg String.toList heq
  have hroot : (Files.fileUri []).toList = ['f', 'i', 'l', 'e', ':', '/', '/'] ++ ['/'] := rfl
  rw [toList_fileUri hne, hroot, List.append_cancel_left_eq, List.map_cons, List.flatMap_cons,
    List.cons_append] at htext
  have hempty : encode nameSet name.toList = encode nameSet "".toList :=
    (List.append_eq_nil_iff.mp (List.cons.inj htext).2).1
  exact h name List.mem_cons_self (encode_injective (by decide) hempty)

/-- Files with different names from the root have different URIs. -/
theorem fileUri_injective {a b : List String} (ha : ∀ name ∈ a, name ≠ "")
    (hb : ∀ name ∈ b, name ≠ "") (h : Files.fileUri a = Files.fileUri b) : a = b := by
  -- The root has a slash of its own, and every other place one before each of its names.
  by_cases hanil : a = []
  · by_cases hbnil : b = []
    · rw [hanil, hbnil]
    · exact absurd (hanil ▸ h.symm) (fileUri_ne_root hbnil hb)
  · by_cases hbnil : b = []
    · exact absurd (hbnil ▸ h) (fileUri_ne_root hanil ha)
    · have hset : '%' ∈ nameSet ∧ '/' ∈ nameSet := by decide
      have hslash (names : List String) :
          ∀ name ∈ names.map fun name ↦ encode nameSet name.toList, '/' ∉ name := by
        intro name hmem
        obtain ⟨plain, -, rfl⟩ := List.mem_map.mp hmem
        exact slash_notMem_encode hset.2 _
      have hnames := congrArg String.toList h
      rw [toList_fileUri hanil, toList_fileUri hbnil, List.append_cancel_left_eq] at hnames
      have hmap := flatMap_slash_injective (hslash a) (hslash b) hnames
      exact List.map_injective_iff.mpr (fun _ _ ↦ encode_injective hset.1) hmap

end ScriptSense.Uri
