import ScriptSense.Json.Read
import ScriptSense.Proofs.Json.Sequence

/-!
# Reading and skipping values

What is read from a spelling is the value that it spells, with the members of every object in the
order of their keys. Reading fails only when a number is out of range, so a text that is read at all
is read as the canonical form of any value that it spells.

A spelling of any value is skipped as a whole. The depth that a reader allows is the length of the
text, and what a list or an object holds is shorter than the list or the object.
-/

namespace ScriptSense.Json

mutual

/-- A value with the members of its objects in the order of their keys, of two members with the same
key the later one. -/
def canonical : Json → Json
  | .array items => .array (canonicalItems items)
  | .object members => .object (canonicalMembers [] members)
  | value => value

def canonicalItems : List Json → List Json
  | [] => []
  | item :: rest => canonical item :: canonicalItems rest

/-- Puts members among those that are in order. -/
def canonicalMembers (ordered : List (String × Json)) :
    List (String × Json) → List (String × Json)
  | [] => ordered
  | (key, value) :: rest => canonicalMembers (insertMember key (canonical value) ordered) rest

end

/-- No two members of the object have the same key. -/
def KeysOnce : Json → Prop
  | .object members => (members.map Prod.fst).Nodup
  | _ => True

theorem canonicalItems_eq_map (items : List Json) : canonicalItems items = items.map canonical := by
  induction items with
  | nil => rfl
  | cons item rest ih => rw [canonicalItems, ih, List.map_cons]

theorem insertMember_perm {key : String} (value : Json) {members : List (String × Json)}
    (h : key ∉ members.map Prod.fst) :
    (insertMember key value members).Perm ((key, value) :: members) := by
  induction members with
  | nil => rfl
  | cons member rest ih =>
    simp only [List.map_cons, List.mem_cons, not_or] at h
    unfold insertMember
    split
    · rfl
    · rw [if_neg h.1]
      exact ((ih h.2).cons member).trans (List.Perm.swap _ _ rest)

/-- As long as no key is repeated, all members stay. -/
theorem canonicalMembers_perm {ordered members : List (String × Json)}
    (h : ((ordered ++ members).map Prod.fst).Nodup) :
    (canonicalMembers ordered members).Perm
      (ordered ++ members.map fun member ↦ (member.1, member.2.canonical)) := by
  induction members generalizing ordered with
  | nil => simp [canonicalMembers]
  | cons member rest ih =>
    obtain ⟨key, value⟩ := member
    have hkey : key ∉ ordered.map Prod.fst := by
      rw [List.map_append, List.map_cons] at h
      exact fun hmem ↦ (List.nodup_append.mp h).2.2 key hmem key List.mem_cons_self rfl
    have hinsert := insertMember_perm value.canonical hkey
    have hkeys : ((insertMember key value.canonical ordered ++ rest).map Prod.fst).Nodup := by
      have hperm := ((hinsert.append_right rest).trans List.perm_middle.symm).map Prod.fst
      rw [hperm.nodup_iff]
      simpa using h
    rw [canonicalMembers]
    exact (ih hkeys).trans ((hinsert.append_right _).trans List.perm_middle.symm)

/-- What is read from a spelling of at most `bound` characters is the canonical form. -/
def ReadsCanonically (reader : Reader Json) (bound : Nat) : Prop :=
  ∀ value gap here rest found, Spells value here → here.length ≤ bound → IsSpace gap → Stops rest →
    reader (gap ++ (here ++ rest)) = .ok found → found = (value.canonical, rest)

theorem canonicalItems_of_readElements {reader : Reader Json} {bound : Nat}
    (hreader : ReadsCanonically reader bound) {first : Bool} {items : List Json}
    {written : List Char} (h : SpellsItems first items written) (hbound : written.length ≤ bound)
    {rest : List Char} {steps : Nat} {found : List Json × List Char}
    (hread : readElements reader steps first (written ++ ']' :: rest) = .ok found) :
    found = (canonicalItems items, rest) := by
  induction steps generalizing items first written found with
  | zero => simp [readElements, failAt] at hread
  | succ steps ih =>
    cases items with
    | nil =>
      rw [SpellsItems] at h
      rw [readElements, nextElement_closing first h] at hread
      exact (Except.ok.inj hread).symm
    | cons item others =>
      rw [SpellsItems] at h
      obtain ⟨gap, here, after, hgap, hhere, hafter, rfl⟩ := h
      simp only [List.length_append] at hbound
      simp only [List.append_assoc, readElements, nextElement_spells hgap hhere] at hread
      split at hread
      · simp at hread
      · rename_i value remaining hvalue
        obtain ⟨rfl, rfl⟩ := Prod.mk.inj
          (hreader item [] here _ _ hhere (by omega) isSpace_nil (hafter.stops rest) hvalue)
        split at hread
        · simp at hread
        · rename_i values remaining hvalues
          obtain ⟨rfl, rfl⟩ := Prod.mk.inj (ih hafter (by omega) hvalues)
          exact (Except.ok.inj hread).symm

theorem canonicalMembers_of_readMembers {reader : Reader Json} {bound : Nat}
    (hreader : ReadsCanonically reader bound) {first : Bool} {members : List (String × Json)}
    {written : List Char} (h : SpellsMembers first members written)
    (hbound : written.length ≤ bound) {ordered : List (String × Json)} {rest : List Char}
    {steps : Nat} {found : List (String × Json) × List Char}
    (hread : readMembers (readMember reader) steps first ordered (written ++ '\x7d' :: rest) =
      .ok found) :
    found = (canonicalMembers ordered members, '\x7d' :: rest) := by
  induction steps generalizing members first written ordered found with
  | zero => simp [readMembers, failAt] at hread
  | succ steps ih =>
    cases members with
    | nil =>
      rw [SpellsMembers] at h
      rw [readMembers, nextKey_closing first h] at hread
      exact (Except.ok.inj hread).symm
    | cons member others =>
      obtain ⟨key, value⟩ := member
      rw [SpellsMembers] at h
      obtain ⟨gap, name, colon, here, after, hgap, hname, hcolon, hhere, hafter, rfl⟩ := h
      obtain ⟨body, hbody, rfl⟩ := hname
      obtain ⟨space, hspace, hreadColon⟩ := readColon_append hcolon
      simp only [List.length_append] at hbound
      simp only [List.append_assoc, List.cons_append, List.nil_append, readMembers,
        nextKey_gap hgap, List.tail_cons, readString_append hbody, readMember, hreadColon] at hread
      split at hread
      · simp at hread
      · rename_i next remaining hnext
        split at hnext
        · simp at hnext
        · rename_i item remaining hitem
          obtain ⟨rfl, rfl⟩ := Prod.mk.inj
            (hreader value space here _ _ hhere (by omega) hspace (hafter.stops rest) hitem)
          obtain ⟨rfl, rfl⟩ := Prod.mk.inj (Except.ok.inj hnext)
          exact ih hafter (by omega) hread

theorem readsCanonically_readValueFrom (depth : Nat) :
    ReadsCanonically (readValueFrom depth) depth := by
  -- A value inside another has a shorter spelling, so the length of the text bounds the depth.
  induction depth with
  | zero =>
    intro value gap here rest found hhere hbound
    obtain ⟨c, more, rfl, -⟩ := hhere.exists_cons
    exact absurd hbound (Nat.not_succ_le_zero _)
  | succ depth ih =>
    intro value gap here rest found hhere hbound hgap hrest hread
    have hstart (c : Char) (more : List Char) (hc : isSpace c = false) :
        skipSpace (gap ++ c :: more) = c :: more := by
      rw [skipSpace_append hgap, skipSpace_cons hc]
    cases value with
    | null =>
      rw [Spells] at hhere
      simpa [readValueFrom, hhere, hstart, isSpace, readLiteral, Except.map, canonical, eq_comm]
        using hread
    | bool value =>
      rw [Spells] at hhere
      cases value <;>
        simpa [readValueFrom, hhere, writeBool, hstart, isSpace, readLiteral, Except.map, canonical,
          eq_comm] using hread
    | number value =>
      have hnumber := hhere.readAs hrest
      obtain ⟨c, more, rfl, hc⟩ := hhere.exists_cons
      rw [List.cons_append] at hnumber hread
      simp only [readValueFrom, hstart c _ hc.ne_punctuation.1] at hread
      split at hread
      iterate 6 simp [Opens] at hc
      rw [if_pos (hc.tells.number_iff.mpr ⟨value, rfl⟩)] at hread
      generalize readNumber (c :: (more ++ rest)) = result at hnumber hread
      cases hnumber with
      | inRange => exact (Except.ok.inj hread).symm
      | outOfRange failure => exact absurd hread (by simp [Except.map])
    | string value =>
      rw [Spells] at hhere
      obtain ⟨body, hbody, rfl⟩ := hhere
      simpa [readValueFrom, hstart, isSpace, readString_append hbody, Except.map, canonical,
        eq_comm] using hread
    | array items =>
      rw [Spells] at hhere
      obtain ⟨body, hbody, rfl⟩ := hhere
      simp only [List.length_append, List.length_cons, List.length_nil] at hbound
      simp only [readValueFrom, List.cons_append, List.append_assoc, List.nil_append,
        hstart '[' _ (by decide)] at hread
      cases helements : readElements (readValueFrom depth) ((body ++ ']' :: rest).length + 1) true
          (body ++ ']' :: rest) with
      | error failure =>
        rw [helements] at hread
        exact absurd hread (by simp [Except.map])
      | ok result =>
        rw [helements, canonicalItems_of_readElements ih hbody (by omega) helements] at hread
        rw [canonical]
        exact (Except.ok.inj hread).symm
    | object members =>
      rw [Spells] at hhere
      obtain ⟨body, hbody, rfl⟩ := hhere
      simp only [List.length_append, List.length_cons, List.length_nil] at hbound
      simp only [readValueFrom, List.cons_append, List.append_assoc, List.nil_append,
        hstart '\x7b' _ (by decide)] at hread
      cases hmembers : readMembers (readMember (readValueFrom depth))
          ((body ++ '\x7d' :: rest).length + 1) true [] (body ++ '\x7d' :: rest) with
      | error failure =>
        rw [hmembers] at hread
        exact absurd hread (by simp [Except.map])
      | ok result =>
        rw [hmembers, canonicalMembers_of_readMembers ih hbody (by omega) hmembers] at hread
        rw [canonical]
        exact (Except.ok.inj hread).symm

/-- A text is read as the canonical form of what it spells. -/
theorem canonical_of_parse {value found : Json} {text : String} (h : SpellsText value text)
    (hparse : parse text = .ok found) : found = value.canonical := by
  obtain ⟨before, here, after, hbefore, hhere, hafter, htext⟩ := h
  rw [List.append_assoc] at htext
  have hstops : Stops after := by simpa using hafter.stops stops_nil
  rw [parse, readAll, htext] at hparse
  split at hparse
  · simp at hparse
  · rename_i result remaining hread
    have hresult := readsCanonically_readValueFrom _ value before here after _ hhere
      (by simp only [List.length_append]; omega) hbefore hstops hread
    obtain ⟨rfl, rfl⟩ := Prod.mk.inj hresult
    rw [skipSpace_eq_nil hafter] at hparse
    exact (Except.ok.inj hparse).symm

/-- Every spelling of at most `bound` characters is skipped, with the space before it. -/
def Skips (skip : List Char → Except Failure (List Char)) (bound : Nat) : Prop :=
  ∀ value gap here rest, Spells value here → here.length ≤ bound → IsSpace gap → Stops rest →
    skip (gap ++ (here ++ rest)) = .ok rest

theorem skipElements_append {skip : List Char → Except Failure (List Char)} {bound : Nat}
    (hskip : Skips skip bound) {first : Bool} {items : List Json} {written : List Char}
    (h : SpellsItems first items written) (hbound : written.length ≤ bound) (rest : List Char)
    {steps : Nat} (hsteps : items.length < steps) :
    skipElements skip steps first (written ++ ']' :: rest) = .ok rest := by
  induction items generalizing first written steps with
  | nil =>
    obtain ⟨steps, rfl⟩ := Nat.exists_eq_succ_of_ne_zero (Nat.ne_zero_of_lt hsteps)
    rw [SpellsItems] at h
    have hstart := skipSpace_cons (c := ']') (by decide) rest
    simp [skipElements, skipSpace_append h, hstart]
  | cons item others ih =>
    obtain ⟨steps, rfl⟩ := Nat.exists_eq_succ_of_ne_zero (Nat.ne_zero_of_lt hsteps)
    rw [SpellsItems] at h
    obtain ⟨gap, here, after, ⟨before, space, hbefore, hspace, rfl⟩, hhere, hafter, rfl⟩ := h
    simp only [List.length_append] at hbound
    have hmore := ih hafter (by omega) (Nat.lt_of_succ_lt_succ hsteps)
    obtain ⟨c, more, rfl, hc⟩ := hhere.exists_cons
    obtain ⟨hspace', hbracket, -⟩ := hc.ne_punctuation
    have hitem (gap : List Char) (hgap : IsSpace gap) :=
      hskip item gap (c :: more) (after ++ ']' :: rest) hhere (by omega) hgap (hafter.stops rest)
    cases first with
    | true =>
      have hstart := skipSpace_cons hspace' (more ++ (after ++ ']' :: rest))
      have hitem := hitem [] isSpace_nil
      simp only [List.nil_append, List.cons_append] at hitem
      simp [skipElements, skipSpace_append hbefore, skipSpace_append hspace, hstart, hbracket,
        hitem, hmore]
    | false =>
      have hcomma := skipSpace_cons (c := ',') (by decide)
        (space ++ (c :: more ++ (after ++ ']' :: rest)))
      have hitem := hitem space hspace
      simp only [List.cons_append] at hitem hcomma
      simp [skipElements, skipSpace_append hbefore, hcomma, hitem, hmore]

theorem skipMember_append {skip : List Char → Except Failure (List Char)} {bound : Nat}
    (hskip : Skips skip bound) {gap name : List Char} {key : String} {value : Json}
    {colon here rest : List Char} (hgap : IsSpace gap) (hname : SpellsString key name)
    (hcolon : IsColon colon) (hhere : Spells value here) (hbound : here.length ≤ bound)
    (hrest : Stops rest) :
    skipMember skip (gap ++ (name ++ (colon ++ (here ++ rest)))) = .ok rest := by
  obtain ⟨body, hbody, rfl⟩ := hname
  obtain ⟨space, hspace, hread⟩ := readColon_append hcolon
  have hquote := skipSpace_cons (c := '"') (by decide) (body ++ '"' :: (colon ++ (here ++ rest)))
  simp only [skipMember, List.cons_append, List.append_assoc, List.nil_append,
    skipSpace_append hgap, hquote, if_true, skipString_append hbody, hread]
  exact hskip value space here rest hhere hbound hspace hrest

theorem skipMembers_append {skip : List Char → Except Failure (List Char)} {bound : Nat}
    (hskip : Skips skip bound) {first : Bool} {members : List (String × Json)}
    {written : List Char} (h : SpellsMembers first members written)
    (hbound : written.length ≤ bound) (rest : List Char) {steps : Nat}
    (hsteps : members.length < steps) :
    skipMembers (skipMember skip) steps first (written ++ '\x7d' :: rest) = .ok rest := by
  induction members generalizing first written steps with
  | nil =>
    obtain ⟨steps, rfl⟩ := Nat.exists_eq_succ_of_ne_zero (Nat.ne_zero_of_lt hsteps)
    rw [SpellsMembers] at h
    have hstart := skipSpace_cons (c := '\x7d') (by decide) rest
    simp [skipMembers, skipSpace_append h, hstart]
  | cons member others ih =>
    obtain ⟨steps, rfl⟩ := Nat.exists_eq_succ_of_ne_zero (Nat.ne_zero_of_lt hsteps)
    obtain ⟨key, value⟩ := member
    rw [SpellsMembers] at h
    obtain ⟨gap, name, colon, here, after, ⟨before, space, hbefore, hspace, rfl⟩, hname, hcolon,
      hhere, hafter, rfl⟩ := h
    simp only [List.length_append] at hbound
    have hmore := ih hafter (by omega) (Nat.lt_of_succ_lt_succ hsteps)
    have hmember (gap : List Char) (hgap : IsSpace gap) :=
      skipMember_append hskip hgap hname hcolon hhere (by omega) (hafter.stops rest)
    cases first with
    | true =>
      have hmember := hmember [] isSpace_nil
      obtain ⟨body, -, rfl⟩ := hname
      have hstart := skipSpace_cons (c := '"') (by decide)
        (body ++ '"' :: (colon ++ (here ++ (after ++ '\x7d' :: rest))))
      simp only [List.nil_append, List.cons_append, List.append_assoc] at hmember
      simp [skipMembers, skipSpace_append hbefore, skipSpace_append hspace, hstart, hmember, hmore]
    | false =>
      have hcomma := skipSpace_cons (c := ',') (by decide)
        (space ++ (name ++ (colon ++ (here ++ (after ++ '\x7d' :: rest)))))
      have hmember := hmember space hspace
      simp [skipMembers, skipSpace_append hbefore, hcomma, hmember, hmore]

theorem skips_skipValueFrom (depth : Nat) : Skips (skipValueFrom depth) depth := by
  induction depth with
  | zero =>
    intro value gap here rest hhere hbound
    obtain ⟨c, more, rfl, -⟩ := hhere.exists_cons
    exact absurd hbound (Nat.not_succ_le_zero _)
  | succ depth ih =>
    intro value gap here rest hhere hbound hgap hrest
    have hstart (c : Char) (more : List Char) (hc : isSpace c = false) :
        skipSpace (gap ++ c :: more) = c :: more := by
      rw [skipSpace_append hgap, skipSpace_cons hc]
    cases value with
    | null =>
      rw [Spells] at hhere
      simp [skipValueFrom, hhere, hstart, isSpace, readLiteral]
    | bool value =>
      rw [Spells] at hhere
      cases value <;> simp [skipValueFrom, hhere, writeBool, hstart, isSpace, readLiteral]
    | number value =>
      rw [Spells] at hhere
      obtain ⟨numeral, -, rfl⟩ := hhere
      have hmagnitude := numeral.skipMagnitude_append hrest
      obtain ⟨c, more, hwhole, hc, -⟩ := numeral.whole_isDigits.exists_cons
      rw [Numeral.text, hwhole]
      rw [hwhole] at hmagnitude
      cases numeral.negative with
      | true => simpa [skipValueFrom, hstart, isSpace] using hmagnitude
      | false =>
        have hopens : Opens (.number value) c := .inr hc
        have hspace := hopens.ne_punctuation.1
        simp only [skipValueFrom, Bool.false_eq_true, if_false, List.nil_append, List.cons_append,
          List.append_assoc, hstart c _ hspace]
        split <;> try exact absurd hc (by decide)
        rw [if_pos hc]
        exact hmagnitude
    | string value =>
      rw [Spells] at hhere
      obtain ⟨body, hbody, rfl⟩ := hhere
      simp [skipValueFrom, hstart, isSpace, skipString_append hbody]
    | array items =>
      rw [Spells] at hhere
      obtain ⟨body, hbody, rfl⟩ := hhere
      simp only [List.length_append, List.length_cons, List.length_nil] at hbound
      have hle := hbody.length_le
      simp only [skipValueFrom, List.cons_append, List.append_assoc, List.nil_append,
        hstart '[' _ (by decide)]
      exact skipElements_append ih hbody (by omega) rest (by simp; omega)
    | object members =>
      rw [Spells] at hhere
      obtain ⟨body, hbody, rfl⟩ := hhere
      simp only [List.length_append, List.length_cons, List.length_nil] at hbound
      have hle := hbody.length_le
      simp only [skipValueFrom, List.cons_append, List.append_assoc, List.nil_append,
        hstart '\x7b' _ (by decide)]
      exact skipMembers_append ih hbody (by omega) rest (by simp; omega)

theorem skipValue_append {value : Json} {gap here rest : List Char} (hgap : IsSpace gap)
    (hhere : Spells value here) (hrest : Stops rest) :
    skipValue (gap ++ (here ++ rest)) = .ok rest := by
  apply skips_skipValueFrom _ value gap here rest hhere _ hgap hrest
  simp only [List.length_append]
  omega

end ScriptSense.Json
