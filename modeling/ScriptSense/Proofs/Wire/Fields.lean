import ScriptSense.Proofs.Wire.Agreement

/-!
# Reading records

A record that is read member by member, or element by element, comes out as it does from a JSON
value. Members with other keys are skipped and change nothing.
-/

namespace ScriptSense.Wire

open Json

namespace Fields

variable {types : List Type}

/-- The codecs of all fields agree. -/
def Agree : {types : List Type} → Fields types → Prop
  | _, .nil => True
  | _, .cons field rest => field.codec.Agrees ∧ rest.Agree

theorem yields_readMember (fields : Fields types) (h : fields.Agree) (slots : Slots types)
    (key : String) {value : Json} {colon here rest : List Char} (hcolon : IsColon colon)
    (hhere : Spells value here) (hrest : Stops rest) :
    Yields (fields.readMember slots key (colon ++ (here ++ rest)))
      (fields.takeMember slots (key, value)).toOption rest := by
  obtain ⟨space, hspace, hreadColon⟩ := readColon_append hcolon
  induction fields with
  | nil =>
    cases slots
    simp only [readMember, hreadColon, skipValue_append hspace hhere hrest]
    rfl
  | cons field fields ih =>
    obtain ⟨slot, slots⟩ := slots
    obtain ⟨hfield, hfields⟩ := h
    simp only [readMember, takeMember]
    split
    · cases slot with
      | some found => exact yields_error ⟨_, rfl⟩ ⟨_, rfl⟩ rest
      | none =>
        obtain ⟨failure, fault, hread, hmeaning⟩ | ⟨found, hread, hmeaning⟩ :=
          (hfield value space here rest hspace hhere hrest).outcomes <;>
        · simp only [hreadColon, hread, hmeaning]
          rfl
    · obtain ⟨failure, fault, hread, hmeaning⟩ | ⟨found, hread, hmeaning⟩ :=
        (ih hfields slots).outcomes <;>
      · simp only [hread, hmeaning]
        rfl

theorem toOption_foldlM {σ β : Type} (f : σ → β → Except Fault σ) (items : List β) (state : σ) :
    (items.foldlM f state).toOption =
      items.foldlM (fun state item ↦ (f state item).toOption) state := by
  induction items generalizing state with
  | nil => rfl
  | cons item rest ih =>
    rw [List.foldlM_cons, List.foldlM_cons]
    cases f state item with
    | error fault => rfl
    | ok next => exact ih next

/-- Of a list that goes on, a record reads as many elements as it has fields; what it leaves is
again a spelling of the items that are left. -/
theorem cases_readElements (name : String) (total : Nat) (fields : Fields types) (h : fields.Agree)
    {index : Nat} {items : List Json} {written : List Char}
    (hwritten : SpellsItems (index == 0) items written) (rest : List Char) :
    (∃ failure fault,
        fields.readElements name total index (written ++ ']' :: rest) = .error failure ∧
        fields.takeItems name total index items = .error fault) ∨
      ∃ values left first remaining, SpellsItems first left remaining ∧
        fields.readElements name total index (written ++ ']' :: rest) =
          .ok (values, remaining ++ ']' :: rest) ∧
        fields.takeItems name total index items = .ok (values, left) := by
  induction fields generalizing index items written with
  | nil => exact .inr ⟨(), items, _, written, hwritten, rfl, rfl⟩
  | cons field fields ih =>
    obtain ⟨hfield, hfields⟩ := h
    cases items with
    | nil =>
      rw [SpellsItems] at hwritten
      simp only [readElements, takeItems, nextElement_closing _ hwritten]
      cases field.beyond with
      | none => exact .inl ⟨_, _, rfl, rfl⟩
      | some value =>
        have hnone : SpellsItems (index == 0) [] [] := isSpace_nil
        obtain ⟨failure, fault, hread, htake⟩ |
            ⟨values, left, first, remaining, hleft, hread, htake⟩ := ih hfields hnone
        · rw [List.nil_append] at hread
          simp only [hread, htake]
          exact .inl ⟨_, _, rfl, rfl⟩
        · rw [List.nil_append] at hread
          simp only [hread, htake]
          exact .inr ⟨_, left, first, remaining, hleft, rfl, rfl⟩
    | cons item others =>
      rw [SpellsItems] at hwritten
      obtain ⟨gap, here, after, hgap, hhere, hafter, rfl⟩ := hwritten
      simp only [readElements, takeItems, List.append_assoc, nextElement_spells hgap hhere]
      obtain ⟨failure, fault, hread, hmeaning⟩ | ⟨value, hread, hmeaning⟩ :=
        (hfield item [] here _ isSpace_nil hhere (hafter.stops rest)).outcomes
      · rw [List.nil_append] at hread
        simp only [hread, hmeaning]
        exact .inl ⟨_, _, rfl, rfl⟩
      · rw [List.nil_append] at hread
        simp only [hread, hmeaning]
        obtain ⟨failure, fault, hread, htake⟩ |
            ⟨values, left, first, remaining, hleft, hread, htake⟩ :=
          @ih hfields (index + 1) others after hafter
        · simp only [hread, htake]
          exact .inl ⟨_, _, rfl, rfl⟩
        · simp only [hread, htake]
          exact .inr ⟨_, left, first, remaining, hleft, rfl, rfl⟩

end Fields

/-- The closing bracket comes next exactly if no items are left. -/
theorem yields_endSequence {first : Bool} {left : List Json} {remaining : List Char}
    (h : SpellsItems first left remaining) (rest : List Char) :
    (left = [] ∧ endSequence (remaining ++ ']' :: rest) = .ok rest) ∨
      (left ≠ [] ∧ ∃ failure, endSequence (remaining ++ ']' :: rest) = .error failure) := by
  cases left with
  | nil =>
    rw [SpellsItems] at h
    have hbracket := skipSpace_cons (c := ']') (by decide) rest
    simp [endSequence, skipSpace_append h, hbracket]
  | cons item others =>
    refine .inr ⟨by simp, ?_⟩
    rw [SpellsItems] at h
    obtain ⟨gap, here, after, hgap, hhere, -, rfl⟩ := h
    simp only [List.append_assoc]
    cases first with
    | true =>
      obtain ⟨c, more, rfl, hc⟩ := hhere.exists_cons
      obtain ⟨hspace, hbracket, hcomma⟩ := hc.ne_punctuation
      have hstart := skipSpace_cons hspace (more ++ (after ++ ']' :: rest))
      simp only [endSequence, skipSpace_append hgap.isSpace, List.cons_append, hstart, hbracket,
        hcomma, if_false]
      exact ⟨_, rfl⟩
    | false =>
      obtain ⟨space, hcomma, -⟩ := hgap.skipSpace (here ++ (after ++ ']' :: rest))
      have hbracket : ¬(',' = ']') := by decide
      simp only [endSequence, hcomma, hbracket, if_false, if_true]
      split <;> exact ⟨_, rfl⟩

namespace Record

variable {ρ : Type}

theorem yields_readObject (record : Record ρ) (h : record.fields.Agree)
    {members : List (String × Json)} {written : List Char}
    (hwritten : SpellsMembers true members written) (rest : List Char) :
    Yields (record.readObject (written ++ '\x7d' :: rest)) (record.ofObject members).toOption
      rest := by
  have hsteps : members.length < (written ++ '\x7d' :: rest).length + 1 := by
    have hle := hwritten.length_le
    rw [List.length_append]
    omega
  have hread : Yields (readMembers record.fields.readMember ((written ++ '\x7d' :: rest).length + 1)
      true record.fields.emptySlots (written ++ '\x7d' :: rest))
      (members.foldlM record.fields.takeMember record.fields.emptySlots).toOption
      ('\x7d' :: rest) := by
    rw [Fields.toOption_foldlM]
    refine yields_readMembers ?_ hwritten record.fields.emptySlots rest hsteps
    intro slots key value colon here rest hcolon hhere hrest
    exact record.fields.yields_readMember h slots key hcolon hhere hrest
  unfold readObject ofObject
  obtain ⟨failure, fault, hread, hmeaning⟩ | ⟨slots, hread, hmeaning⟩ := hread.outcomes
  · rw [hread, hmeaning]
    rfl
  · rw [hread, hmeaning]
    exact yields_liftAt _ rest

theorem yields_readList (record : Record ρ) (h : record.fields.Agree) {items : List Json}
    {written : List Char} (hwritten : SpellsItems true items written) (rest : List Char) :
    Yields (record.readList (written ++ ']' :: rest)) (record.ofList items).toOption rest := by
  have hfirst : SpellsItems ((0 : Nat) == 0) items written := hwritten
  unfold readList ofList
  obtain ⟨failure, fault, hread, htake⟩ | ⟨values, left, first, remaining, hleft, hread, htake⟩ :=
    Fields.cases_readElements record.name record.fields.count record.fields h hfirst rest
  · rw [hread, htake]
    rfl
  · simp only [hread, htake]
    obtain ⟨rfl, hend⟩ | ⟨hne, failure, hend⟩ := yields_endSequence hleft rest
    · rw [hend]
      rfl
    · rw [hend]
      cases left with
      | nil => exact absurd rfl hne
      | cons item others => rfl

theorem agrees_codec (record : Record ρ) (h : record.fields.Agree) : record.codec.Agrees := by
  intro value gap here rest hgap hhere hrest
  obtain ⟨c, more, rfl, hc, hstart⟩ := exists_valueStart hhere hgap
  simp only [codec, hstart]
  split
  · rename_i hbracket
    obtain ⟨items, rfl⟩ := hc.array_iff.mp hbracket
    obtain ⟨body, hbody, rfl⟩ := hhere.array_tail
    rw [List.append_assoc]
    exact record.yields_readList h hbody rest
  · rename_i hbracket
    split
    · rename_i hbrace
      obtain ⟨members, rfl⟩ := hc.object_iff.mp hbrace
      obtain ⟨body, hbody, rfl⟩ := hhere.object_tail
      rw [List.append_assoc]
      exact record.yields_readObject h hbody rest
    · rename_i hbrace
      apply yields_error (exists_wrongType record.name c _)
      cases value with
      | array items => exact absurd (hc.array_iff.mpr ⟨items, rfl⟩) hbracket
      | object members => exact absurd (hc.object_iff.mpr ⟨members, rfl⟩) hbrace
      | _ => exact ⟨_, rfl⟩

end Record

/-- A whole text is read as what the codec makes of the value that it spells. -/
theorem Codec.Agrees.toOption_readAll {α : Type} {codec : Codec α} (h : codec.Agrees) {value : Json}
    {text : String} (htext : SpellsText value text) :
    (readAll codec.read text).toOption = (codec.ofJson value).toOption := by
  obtain ⟨before, here, after, hbefore, hhere, hafter, htext⟩ := htext
  rw [List.append_assoc] at htext
  have hstops : Stops after := by simpa using hafter.stops stops_nil
  unfold readAll
  rw [htext]
  obtain ⟨failure, fault, hread, hmeaning⟩ | ⟨found, hread, hmeaning⟩ :=
    (h value before here after hbefore hhere hstops).outcomes
  · rw [hread, hmeaning]
    rfl
  · rw [hread, hmeaning]
    simp only [skipSpace_eq_nil hafter]
    rfl

end ScriptSense.Wire
