import ScriptSense.Proofs.Json.Read
import ScriptSense.Wire.Types

/-!
# Reading from text and from values

A codec reads a text from left to right, and it walks through a JSON value. Both ways lead to the
same result on every spelling of a value, whichever of them fails first.
-/

namespace ScriptSense.Wire

open Json

/-- What the codec reads from a spelling of a value is what it makes of the value itself. -/
def Codec.Agrees {α : Type} (codec : Codec α) : Prop :=
  ∀ value gap here rest, IsSpace gap → Spells value here → Stops rest →
    Yields (codec.read (gap ++ (here ++ rest))) (codec.ofJson value).toOption rest

theorem yields_error {α : Type} {result : Except Failure (α × List Char)} {meaning : Except Fault α}
    (h : ∃ failure, result = .error failure) (hmeaning : ∃ fault, meaning = .error fault)
    (rest : List Char) : Yields result meaning.toOption rest := by
  obtain ⟨failure, rfl⟩ := h
  obtain ⟨fault, rfl⟩ := hmeaning
  rfl

theorem yields_liftAt {α : Type} (result : Except Fault α) (rest : List Char) :
    Yields (liftAt result rest) result.toOption rest := by
  cases result <;> rfl

theorem exists_wrongType {α : Type} (expected : String) (c : Char) (rest : List Char) :
    ∃ failure, (wrongType expected c rest : Except Failure (α × List Char)) = .error failure := by
  unfold wrongType
  cases readFound c rest with
  | error failure => exact ⟨failure, rfl⟩
  | ok found => exact ⟨_, rfl⟩

/-- A codec finds the first character of a value, which tells what kind of value it is. -/
theorem exists_valueStart {value : Json} {here gap : List Char} (h : Spells value here)
    (hgap : IsSpace gap) :
    ∃ c more, here = c :: more ∧ Tells c value ∧
      ∀ rest, valueStart (gap ++ (here ++ rest)) = .ok (c, more ++ rest) := by
  obtain ⟨c, more, rfl, hc⟩ := h.exists_cons
  refine ⟨c, more, rfl, hc.tells, fun rest ↦ ?_⟩
  simp [valueStart, skipSpace_append hgap, skipSpace_cons hc.ne_punctuation.1]

namespace Codec

theorem agrees_nat (name : String) (limit : Nat) : (nat name limit).Agrees := by
  intro value gap here rest hgap hhere hrest
  obtain ⟨c, more, rfl, hc, hstart⟩ := exists_valueStart hhere hgap
  simp only [nat, hstart]
  split
  · rename_i hnumber
    obtain ⟨number, rfl⟩ := hc.number_iff.mp hnumber
    have hread := hhere.readAs hrest
    rw [List.cons_append] at hread
    generalize readNumber (c :: (more ++ rest)) = result at hread
    cases hread with
    | inRange => exact yields_liftAt _ rest
    | outOfRange failure h =>
      rw [h]
      rfl
  · rename_i hnumber
    apply yields_error (exists_wrongType name c _)
    cases value with
    | number number => exact absurd (hc.number_iff.mpr ⟨number, rfl⟩) hnumber
    | _ => exact ⟨_, rfl⟩

theorem agrees_bool : bool.Agrees := by
  intro value gap here rest hgap hhere hrest
  obtain ⟨c, more, rfl, hc, hstart⟩ := exists_valueStart hhere hgap
  simp only [bool, hstart]
  split
  · rename_i htrue
    obtain rfl := hc.true_iff.mp htrue
    rw [Spells] at hhere
    obtain ⟨rfl, rfl⟩ := List.cons.inj hhere
    rfl
  · rename_i htrue
    split
    · rename_i hfalse
      obtain rfl := hc.false_iff.mp hfalse
      rw [Spells] at hhere
      obtain ⟨rfl, rfl⟩ := List.cons.inj hhere
      rfl
    · rename_i hfalse
      apply yields_error (exists_wrongType _ c _)
      cases value with
      | bool value =>
        cases value with
        | true => exact absurd (hc.true_iff.mpr rfl) htrue
        | false => exact absurd (hc.false_iff.mpr rfl) hfalse
      | _ => exact ⟨_, rfl⟩

theorem agrees_text : text.Agrees := by
  intro value gap here rest hgap hhere hrest
  obtain ⟨c, more, rfl, hc, hstart⟩ := exists_valueStart hhere hgap
  simp only [text, hstart]
  split
  · rename_i hquote
    obtain ⟨value, rfl⟩ := hc.string_iff.mp hquote
    obtain ⟨body, hbody, rfl⟩ := hhere.string_tail
    simp only [List.append_assoc, List.cons_append, List.nil_append, readString_append hbody]
    rfl
  · rename_i hquote
    apply yields_error (exists_wrongType _ c _)
    cases value with
    | string value => exact absurd (hc.string_iff.mpr ⟨value, rfl⟩) hquote
    | _ => exact ⟨_, rfl⟩

theorem ofJson_optional {α : Type} (codec : Codec α) {value : Json} (h : value ≠ .null) :
    codec.optional.ofJson value = (codec.ofJson value).map some := by
  cases value with
  | null => exact absurd rfl h
  | _ => rfl

theorem agrees_optional {α : Type} {codec : Codec α} (h : codec.Agrees) :
    codec.optional.Agrees := by
  intro value gap here rest hgap hhere hrest
  obtain ⟨c, more, rfl, hc⟩ := hhere.exists_cons
  have hstart := skipSpace_cons hc.ne_punctuation.1 (more ++ rest)
  simp only [Codec.optional, skipSpace_append hgap, List.cons_append, hstart]
  split
  · rename_i heq
    obtain ⟨hnull, rfl⟩ := List.cons.inj heq
    obtain rfl := hc.tells.null_iff.mp hnull
    rw [Spells] at hhere
    obtain ⟨-, rfl⟩ := List.cons.inj hhere
    rfl
  · rename_i hnull
    have hvalue : value ≠ .null := by
      rintro rfl
      exact hnull (more ++ rest) (by rw [hc.tells.null_iff.mpr rfl])
    have hread := h value [] (c :: more) rest isSpace_nil hhere hrest
    rw [List.nil_append, List.cons_append] at hread
    change Yields _ (codec.optional.ofJson value).toOption rest
    rw [ofJson_optional codec hvalue]
    obtain ⟨failure, fault, hread, hmeaning⟩ | ⟨found, hread, hmeaning⟩ := hread.outcomes <;>
      · rw [hread, hmeaning]
        rfl

theorem toOption_mapM {α β : Type} (f : α → Except Fault β) (items : List α) :
    (items.mapM f).toOption = items.mapM fun item ↦ (f item).toOption := by
  induction items with
  | nil => rfl
  | cons item rest ih =>
    rw [List.mapM_cons, List.mapM_cons, ← ih]
    cases f item with
    | error fault => rfl
    | ok value => cases rest.mapM f <;> rfl

theorem agrees_list {α : Type} {codec : Codec α} (h : codec.Agrees) : codec.list.Agrees := by
  intro value gap here rest hgap hhere hrest
  obtain ⟨c, more, rfl, hc, hstart⟩ := exists_valueStart hhere hgap
  simp only [list, hstart]
  split
  · rename_i hbracket
    obtain ⟨items, rfl⟩ := hc.array_iff.mp hbracket
    obtain ⟨body, hbody, rfl⟩ := hhere.array_tail
    have hsteps := hbody.length_le
    rw [toOption_mapM, List.append_assoc]
    apply yields_readElements _ hbody
    · simp
      omega
    · intro item here rest hhere hrest
      exact h item [] here rest isSpace_nil hhere hrest
  · rename_i hbracket
    apply yields_error (exists_wrongType _ c _)
    cases value with
    | array items => exact absurd (hc.array_iff.mpr ⟨items, rfl⟩) hbracket
    | _ => exact ⟨_, rfl⟩

theorem yields_readName {α : Type} (choices : Choices α) {name : String} {gap written : List Char}
    (hgap : IsSpace gap) (hname : SpellsString name written) (rest : List Char) :
    Yields (choices.readName (gap ++ (written ++ rest))) (choices.ofName name).toOption rest := by
  obtain ⟨body, hbody, rfl⟩ := hname
  have hquote := skipSpace_cons (c := '"') (by decide) (body ++ '"' :: rest)
  simp only [Choices.readName, valueStart, skipSpace_append hgap, List.cons_append,
    List.append_assoc, List.nil_append, hquote, if_true, readString_append hbody]
  exact yields_liftAt _ rest

/-- Nothing but null goes with a name. -/
theorem cases_readNothing {value : Json} {gap here : List Char} (hgap : IsSpace gap)
    (hhere : Spells value here) (rest : List Char) :
    (value = .null ∧ Choices.readNothing (gap ++ (here ++ rest)) = .ok ((), rest)) ∨
      (value ≠ .null ∧
        ∃ failure, Choices.readNothing (gap ++ (here ++ rest)) = .error failure) := by
  obtain ⟨c, more, rfl, hc, hstart⟩ := exists_valueStart hhere hgap
  simp only [Choices.readNothing, hstart]
  split
  · rename_i hnull
    obtain rfl := hc.null_iff.mp hnull
    rw [Spells] at hhere
    obtain ⟨-, rfl⟩ := List.cons.inj hhere
    exact .inl ⟨rfl, rfl⟩
  · rename_i hnull
    exact .inr ⟨fun hvalue ↦ hnull (hc.null_iff.mpr hvalue), exists_wrongType _ c _⟩

theorem toOption_ofJson_choice {α : Type} (choices : Choices α) (name : String) (value : Json)
    (others : List (String × Json)) :
    ((choice choices).ofJson (.object ((name, value) :: others))).toOption =
      match value, others with
      | .null, [] => (choices.ofName name).toOption
      | _, _ => none := by
  cases others with
  | cons member others => cases value <;> rfl
  | nil =>
    simp only [choice]
    cases choices.ofName name with
    | error fault => cases value <;> rfl
    | ok found => cases value <;> rfl

/-- Only an object with a single member, whose value is null, is read as a name. -/
theorem yields_readTagged {α : Type} (choices : Choices α) {members : List (String × Json)}
    {written : List Char} (h : SpellsMembers true members written) (rest : List Char) :
    Yields (choices.readTagged (written ++ '\x7d' :: rest))
      ((choice choices).ofJson (.object members)).toOption rest := by
  cases members with
  | nil =>
    rw [SpellsMembers] at h
    have hbrace := skipSpace_cons (c := '\x7d') (by decide) rest
    obtain ⟨failure, herror⟩ := exists_wrongType (α := α) "variant identifier" '\x7d' rest
    simp only [Choices.readTagged, Choices.readName, valueStart, skipSpace_append h, hbrace, herror]
    rfl
  | cons member others =>
    obtain ⟨name, value⟩ := member
    rw [SpellsMembers] at h
    obtain ⟨gap, key, colon, here, after, hgap, hkey, hcolon, hhere, hafter, rfl⟩ := h
    obtain ⟨space, hspace, hreadColon⟩ := readColon_append hcolon
    rw [toOption_ofJson_choice]
    simp only [Choices.readTagged, List.append_assoc]
    obtain ⟨failure, hread, hname⟩ | ⟨choice, hread, hname⟩ := (yields_readName choices hgap.isSpace
      hkey (colon ++ (here ++ (after ++ '\x7d' :: rest)))).cases
    · rw [hread, hname]
      cases value <;> cases others <;> rfl
    simp only [hread, hname, hreadColon]
    obtain ⟨rfl, hnothing⟩ | ⟨hvalue, failure, hnothing⟩ :=
      cases_readNothing hspace hhere (after ++ '\x7d' :: rest)
    · rw [hnothing]
      cases others with
      | nil =>
        rw [SpellsMembers] at hafter
        have hbrace := skipSpace_cons (c := '\x7d') (by decide) rest
        simp only [skipSpace_append hafter, hbrace, if_true]
        rfl
      | cons member others =>
        rw [SpellsMembers] at hafter
        obtain ⟨gap, key, colon, here, after, hgap, -, -, -, -, rfl⟩ := hafter
        obtain ⟨space, hcomma, -⟩ :=
          hgap.skipSpace (key ++ (colon ++ (here ++ (after ++ '\x7d' :: rest))))
        simp only [List.append_assoc, hcomma]
        rfl
    · rw [hnothing]
      cases value with
      | null => exact absurd rfl hvalue
      | _ => rfl

theorem agrees_choice {α : Type} (choices : Choices α) : (choice choices).Agrees := by
  intro value gap here rest hgap hhere hrest
  obtain ⟨c, more, rfl, hc, hstart⟩ := exists_valueStart hhere hgap
  simp only [choice, hstart]
  split
  · rename_i hquote
    obtain ⟨name, rfl⟩ := hc.string_iff.mp hquote
    rw [Spells] at hhere
    exact yields_readName choices isSpace_nil hhere rest
  · rename_i hquote
    split
    · rename_i hbrace
      obtain ⟨members, rfl⟩ := hc.object_iff.mp hbrace
      obtain ⟨body, hbody, rfl⟩ := hhere.object_tail
      rw [List.append_assoc]
      exact yields_readTagged choices hbody rest
    · rename_i hbrace
      apply yields_error ⟨_, rfl⟩
      cases value with
      | string name => exact absurd (hc.string_iff.mpr ⟨name, rfl⟩) hquote
      | object members => exact absurd (hc.object_iff.mpr ⟨members, rfl⟩) hbrace
      | _ => exact ⟨_, rfl⟩

end Codec

end ScriptSense.Wire
