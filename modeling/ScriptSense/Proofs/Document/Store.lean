import Mathlib.Data.List.Basic
import Mathlib.Data.List.Nodup
import Mathlib.Data.List.Perm.Basic
import Mathlib.Tactic.ByContra
import Mathlib.Tactic.SplitIfs
import ScriptSense.Document.Store

/-!
# The documents as a set of pairs

The listing of the open documents is in the order of their URIs and lists each once, so the pairs
of URI and text that it holds determine it. Keeping and forgetting a text are read off the pairs.

URIs are compared by code point, which is also the order of their UTF-8 bytes: a smaller code point
has the smaller first byte that differs, and no code is the start of another.
-/

namespace ScriptSense

namespace Text

/-- The UTF-8 bytes of a text. -/
def utf8 (text : String) : List UInt8 :=
  text.toUTF8.data.toList

theorem utf8_eq_flatMap (text : String) :
    utf8 text = text.toList.flatMap String.utf8EncodeChar := by
  conv_lhs => rw [← String.ofList_toList (s := text)]
  rw [utf8, String.toUTF8_eq_toByteArray]
  simp [String.ofList, List.utf8Encode]

/-- Whatever bytes follow, the bytes of a smaller character are smaller. -/
theorem utf8EncodeChar_append_lt {c d : Char} (h : c < d) (rest others : List UInt8) :
    String.utf8EncodeChar c ++ rest < String.utf8EncodeChar d ++ others := by
  have hlt : c.val.toNat < d.val.toNat := UInt32.lt_iff_toNat_lt.mp h
  have hmax : d.val.toNat < 0x110000 := d.valid.elim (fun h ↦ Nat.lt_trans h (by decide)) And.right
  generalize hm : c.val.toNat = m at hlt
  generalize hn : d.val.toNat = n at hlt hmax
  have hbyte (a : Nat) (ha : a < 256) : a % 2 ^ 8 = a := Nat.mod_eq_of_lt ha
  -- The bytes hold the digits of the code point to the base 64, the highest first.
  have hdigits (a : Nat) (ha : a < 0x110000) :
      a / 64 / 64 = a / 4096 ∧ a / 4096 / 64 = a / 262144 ∧ a / 262144 % 8 = a / 262144 := by
    rw [Nat.div_div_eq_div_mul, Nat.div_div_eq_div_mul]
    omega
  have hmdigits := hdigits m (Nat.lt_trans hlt hmax)
  have hndigits := hdigits n hmax
  simp only [String.utf8EncodeChar, hm, hn]
  split_ifs <;>
    simp only [List.cons_append, List.nil_append, List.cons_lt_cons_iff, UInt8.lt_iff_toNat_lt,
      ← UInt8.toNat_inj, UInt8.toNat_ofNat'] <;>
    simp (disch := omega) only [hbyte] <;>
    omega

theorem flatMap_utf8EncodeChar_lt {a b : List Char} (h : a < b) :
    a.flatMap String.utf8EncodeChar < b.flatMap String.utf8EncodeChar := by
  induction h with
  | @nil c rest =>
    have hne : (c :: rest).flatMap String.utf8EncodeChar ≠ [] := by
      simp
    obtain ⟨byte, bytes, hbytes⟩ := List.exists_cons_of_ne_nil hne
    rw [List.flatMap_nil, hbytes]
    exact List.nil_lt_cons byte bytes
  | cons _ ih => exact List.append_left_lt ih
  | rel hlt => exact utf8EncodeChar_append_lt hlt _ _

theorem utf8_lt_iff {a b : String} : utf8 a < utf8 b ↔ a < b := by
  have hlt {a b : String} (h : a < b) : utf8 a < utf8 b := by
    rw [utf8_eq_flatMap, utf8_eq_flatMap]
    exact flatMap_utf8EncodeChar_lt h
  refine ⟨fun h ↦ ?_, hlt⟩
  by_contra hnot
  by_cases hother : b < a
  · exact List.lt_irrefl _ (List.lt_trans h (hlt hother))
  · rw [String.le_antisymm (String.not_lt.mp hother) (String.not_lt.mp hnot)] at h
    exact List.lt_irrefl _ h

end Text

namespace Documents

theorem mem_putInto_iff {uri text : String} {entries : List (String × String)}
    (ordered : entries.Pairwise fun a b ↦ a.1 < b.1) (entry : String × String) :
    entry ∈ putInto uri text entries ↔ entry = (uri, text) ∨ entry ∈ entries ∧ entry.1 ≠ uri := by
  induction entries with
  | nil => simp [putInto]
  | cons first rest ih =>
    obtain ⟨hfirst, hrest⟩ := List.pairwise_cons.mp ordered
    -- Once a URI is not smaller than the new one, no later entry is one of the new URI.
    have hlater (hle : ¬first.1 < uri) (hmem : entry ∈ rest) : entry.1 ≠ uri := by
      intro heq
      exact hle (heq ▸ hfirst entry hmem)
    unfold putInto
    split
    · rename_i hlt
      have hrest := hlater (String.lt_asymm hlt)
      have hne : first.1 ≠ uri := fun heq ↦ String.lt_irrefl uri (by rwa [heq] at hlt)
      simp only [List.mem_cons]
      grind
    · split
      · rename_i heq
        have hrest := hlater (heq ▸ String.lt_irrefl uri)
        simp only [List.mem_cons]
        grind
      · rename_i hne
        simp only [List.mem_cons, ih hrest]
        grind

theorem mem_entries_put (documents : Documents) (uri text : String) (entry : String × String) :
    entry ∈ (documents.put uri text).entries ↔
      entry = (uri, text) ∨ entry ∈ documents.entries ∧ entry.1 ≠ uri :=
  mem_putInto_iff documents.ordered entry

theorem mem_entries_erase (documents : Documents) (uri : String) (entry : String × String) :
    entry ∈ (documents.erase uri).entries ↔ entry ∈ documents.entries ∧ entry.1 ≠ uri := by
  simp [erase]

theorem nodup_uris (documents : Documents) : (documents.entries.map Prod.fst).Nodup := by
  rw [List.Nodup, List.pairwise_map]
  apply documents.ordered.imp
  intro a b hlt heq
  rw [heq] at hlt
  exact String.lt_irrefl _ hlt

theorem eq_of_mem_of_fst_eq (documents : Documents) {a b : String × String}
    (ha : a ∈ documents.entries) (hb : b ∈ documents.entries) (h : a.1 = b.1) : a = b :=
  List.inj_on_of_nodup_map documents.nodup_uris ha hb h

theorem get?_eq_some_iff (documents : Documents) (uri text : String) :
    documents.get? uri = some text ↔ (uri, text) ∈ documents.entries := by
  rw [get?, Option.map_eq_some_iff]
  constructor
  · rintro ⟨entry, hfind, rfl⟩
    have huri : entry.1 = uri := by simpa using List.find?_some hfind
    exact huri ▸ List.mem_of_find?_eq_some hfind
  · intro hmem
    cases hfind : documents.entries.find? (·.1 == uri) with
    | none => exact absurd (List.find?_eq_none.mp hfind _ hmem) (by simp)
    | some entry =>
      have huri : entry.1 = uri := by simpa using List.find?_some hfind
      have heq := documents.eq_of_mem_of_fst_eq (List.mem_of_find?_eq_some hfind) hmem huri
      exact ⟨entry, rfl, by rw [heq]⟩

theorem get?_put_self (documents : Documents) (uri text : String) :
    (documents.put uri text).get? uri = some text := by
  rw [get?_eq_some_iff, mem_entries_put]
  exact .inl rfl

theorem ext_mem {a b : Documents} (h : ∀ entry, entry ∈ a.entries ↔ entry ∈ b.entries) :
    a = b := by
  have hnodup (documents : Documents) : documents.entries.Nodup :=
    List.Nodup.of_map Prod.fst documents.nodup_uris
  have hperm : a.entries.Perm b.entries :=
    (List.perm_ext_iff_of_nodup (hnodup a) (hnodup b)).mpr h
  have hentries : a.entries = b.entries := by
    apply hperm.eq_of_pairwise _ a.ordered b.ordered
    intro first second _ _ hlt hgt
    exact absurd hgt (String.lt_asymm hlt)
  cases a
  cases b
  congr

end Documents

end ScriptSense
