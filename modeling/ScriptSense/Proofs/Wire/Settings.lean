import ScriptSense.Proofs.Json.Soundness
import ScriptSense.Proofs.Wire.Types

/-!
# Two ways to the settings

The settings are read from a text as from the value that the text is parsed to, although parsing
puts the members in order. Only null is told apart: it stands for the defaults as a value and for
nothing as a text.
-/

namespace ScriptSense.Wire

open Json

/-- The codec does not look at the order of members. -/
def Codec.IgnoresOrder {α : Type} (codec : Codec α) : Prop :=
  ∀ value : Json, codec.ofJson value.canonical = codec.ofJson value

theorem ignoresOrder_nat (name : String) (limit : Nat) : (Codec.nat name limit).IgnoresOrder := by
  intro value
  cases value <;> rfl

theorem ignoresOrder_bool : Codec.bool.IgnoresOrder := by
  intro value
  cases value <;> rfl

theorem ignoresOrder_text : Codec.text.IgnoresOrder := by
  intro value
  cases value <;> rfl

namespace Fields

variable {types : List Type}

def IgnoreOrder : {types : List Type} → Fields types → Prop
  | _, .nil => True
  | _, .cons field rest => field.codec.IgnoresOrder ∧ rest.IgnoreOrder

theorem takeMember_canonical {fields : Fields types} (h : fields.IgnoreOrder) (slots : Slots types)
    (member : String × Json) :
    fields.takeMember slots (member.1, member.2.canonical) = fields.takeMember slots member := by
  induction fields with
  | nil => rfl
  | cons field rest ih =>
    obtain ⟨slot, slots⟩ := slots
    simp only [takeMember, h.1 member.2, ih h.2 slots]

theorem takeItems_canonical (name : String) (total : Nat) {fields : Fields types}
    (h : fields.IgnoreOrder) (index : Nat) (items : List Json) :
    fields.takeItems name total index (items.map Json.canonical) =
      (fields.takeItems name total index items).map fun (values, left) ↦
        (values, left.map Json.canonical) := by
  induction fields generalizing index items with
  | nil => rfl
  | cons field rest ih =>
    cases items with
    | nil =>
      have hrest := ih h.2 index []
      simp only [List.map_nil] at hrest
      simp only [takeItems, List.map_nil]
      cases field.beyond with
      | none => rfl
      | some value =>
        conv_lhs => rw [hrest]
        cases rest.takeItems name total index [] <;> rfl
    | cons item items =>
      simp only [takeItems, List.map_cons, h.1 item]
      cases field.codec.ofJson item with
      | error fault => rfl
      | ok value =>
        simp only [ih h.2 (index + 1) items]
        cases rest.takeItems name total (index + 1) items <;> rfl

/-- Members with different keys go to different slots, so it does not matter which comes first. -/
theorem takeMember_swap {fields : Fields types} {slots next last : Slots types}
    {first second : String × Json} (h : first.1 ≠ second.1)
    (hfirst : fields.takeMember slots first = .ok next)
    (hsecond : fields.takeMember next second = .ok last) :
    ∃ other, fields.takeMember slots second = .ok other ∧
      fields.takeMember other first = .ok last := by
  induction fields with
  | nil => exact ⟨slots, rfl, rfl⟩
  | cons field rest ih =>
    simp only [takeMember_cons_eq_ok] at hfirst hsecond ⊢
    obtain ⟨hkey, hslot, value, hvalue, rfl⟩ | ⟨hkey, others, htake, rfl⟩ := hfirst
    · obtain ⟨hkey', -⟩ | ⟨hkey', others, htake, rfl⟩ := hsecond
      · exact absurd (hkey.trans hkey'.symm) h
      · exact ⟨(slots.1, others), .inr ⟨hkey', others, htake, rfl⟩,
          .inl ⟨hkey, hslot, value, hvalue, rfl⟩⟩
    · obtain ⟨hkey', hslot, value, hvalue, rfl⟩ | ⟨hkey', last, htake', rfl⟩ := hsecond
      · exact ⟨(some value, slots.2), .inl ⟨hkey', hslot, value, hvalue, rfl⟩,
          .inr ⟨hkey, others, htake, rfl⟩⟩
      · obtain ⟨other, hother, hlast⟩ := ih htake htake'
        exact ⟨(slots.1, other), .inr ⟨hkey', other, hother, rfl⟩, .inr ⟨hkey, last, hlast, rfl⟩⟩

theorem foldlM_takeMember_perm {fields : Fields types} {members others : List (String × Json)}
    (hperm : members.Perm others) (hkeys : (members.map Prod.fst).Nodup) {slots last : Slots types}
    (h : members.foldlM fields.takeMember slots = .ok last) :
    others.foldlM fields.takeMember slots = .ok last := by
  -- A permutation exchanges neighbours, one pair after the other.
  induction hperm generalizing slots with
  | nil => exact h
  | cons member _ ih =>
    rw [List.map_cons, List.nodup_cons] at hkeys
    obtain ⟨next, hnext, hrest⟩ := foldlM_cons_eq_ok.mp h
    exact foldlM_cons_eq_ok.mpr ⟨next, hnext, ih hkeys.2 hrest⟩
  | swap first second rest =>
    simp only [List.map_cons, List.nodup_cons, List.mem_cons, not_or] at hkeys
    obtain ⟨next, hsecond, h⟩ := foldlM_cons_eq_ok.mp h
    obtain ⟨after, hfirst, hrest⟩ := foldlM_cons_eq_ok.mp h
    obtain ⟨other, hother, hafter⟩ := takeMember_swap hkeys.1.1 hsecond hfirst
    exact foldlM_cons_eq_ok.mpr ⟨other, hother, foldlM_cons_eq_ok.mpr ⟨after, hafter, hrest⟩⟩
  | trans hperm _ ih ih' => exact ih' ((hperm.map Prod.fst).nodup_iff.mp hkeys) (ih hkeys h)

/-- The members of an object, each with its value put in order. -/
def eachCanonical (members : List (String × Json)) : List (String × Json) :=
  members.map fun member ↦ (member.1, member.2.canonical)

theorem foldlM_takeMember_eachCanonical {fields : Fields types} (h : fields.IgnoreOrder)
    (members : List (String × Json)) (slots : Slots types) :
    (eachCanonical members).foldlM fields.takeMember slots =
      members.foldlM fields.takeMember slots := by
  simp only [eachCanonical, List.foldlM_map, takeMember_canonical h]

/-- Members with different keys are taken in any order, or in none. -/
theorem toOption_foldlM_takeMember_perm {fields : Fields types}
    {members others : List (String × Json)} (hperm : members.Perm others)
    (hkeys : (members.map Prod.fst).Nodup) (slots : Slots types) :
    (members.foldlM fields.takeMember slots).toOption =
      (others.foldlM fields.takeMember slots).toOption := by
  have hkeys' : (others.map Prod.fst).Nodup := (hperm.map Prod.fst).nodup_iff.mp hkeys
  cases hfold : members.foldlM fields.takeMember slots with
  | ok last => rw [foldlM_takeMember_perm hperm hkeys hfold]
  | error fault =>
    cases hfold' : others.foldlM fields.takeMember slots with
    | error fault => rfl
    | ok last =>
      rw [foldlM_takeMember_perm hperm.symm hkeys' hfold'] at hfold
      cases hfold

theorem foldlM_takeMember_canonical {fields : Fields types} (h : fields.IgnoreOrder)
    {members : List (String × Json)} (hkeys : (members.map Prod.fst).Nodup) (slots : Slots types) :
    ((canonicalMembers [] members).foldlM fields.takeMember slots).toOption =
      (members.foldlM fields.takeMember slots).toOption := by
  have hperm : (canonicalMembers [] members).Perm (eachCanonical members) :=
    canonicalMembers_perm hkeys
  have hkeys' : ((eachCanonical members).map Prod.fst).Nodup := by
    simpa [eachCanonical, Function.comp_def] using hkeys
  rw [← toOption_foldlM_takeMember_perm hperm.symm hkeys' slots,
    foldlM_takeMember_eachCanonical h]

end Fields

/-- The members of an object may be put in order before they are read, unless a key is repeated. -/
theorem Record.toOption_ofJson_canonical {ρ : Type} (record : Record ρ)
    (h : record.fields.IgnoreOrder) {value : Json} (hkeys : value.KeysOnce) :
    (record.codec.ofJson value.canonical).toOption = (record.codec.ofJson value).toOption := by
  cases value with
  | array items =>
    have htake := Fields.takeItems_canonical record.name record.fields.count h 0 items
    simp only [canonical, codec, ofList, canonicalItems_eq_map, htake]
    cases record.fields.takeItems record.name record.fields.count 0 items with
    | error fault => rfl
    | ok result =>
      obtain ⟨values, left⟩ := result
      cases left <;> rfl
  | object members =>
    have hfold := Fields.foldlM_takeMember_canonical h hkeys record.fields.emptySlots
    simp only [canonical, codec, ofObject]
    cases hordered : (canonicalMembers [] members).foldlM record.fields.takeMember
        record.fields.emptySlots <;>
      cases hgiven : members.foldlM record.fields.takeMember record.fields.emptySlots
    all_goals rw [hordered, hgiven] at hfold
    · rfl
    · cases hfold
    · cases hfold
    · rw [Option.some.inj hfold]
  | _ => rfl

/-- A text that names no key of its object twice. -/
def RepeatsNoKey (text : String) : Prop :=
  ∃ json, SpellsText json text ∧ json.KeysOnce

/-- A text that names a key of its object twice. -/
def RepeatsKey (text : String) : Prop :=
  ∃ json, SpellsText json text ∧ ¬json.KeysOnce

theorem repeatsNoKey_or_repeatsKey {text : String} {value : Json} (h : parse text = .ok value) :
    RepeatsNoKey text ∨ RepeatsKey text := by
  obtain ⟨json, htext, -⟩ := exists_spelling_of_parse h
  by_cases hkeys : json.KeysOnce
  · exact .inl ⟨json, htext, hkeys⟩
  · exact .inr ⟨json, htext, hkeys⟩

theorem toOption_mapError {α ε ε' : Type} (f : ε → ε') (result : Except ε α) :
    (result.mapError f).toOption = result.toOption := by
  cases result <;> rfl

theorem toOption_settingsOfJson {value : Json} (h : value ≠ .null) :
    (settingsOfJson value).toOption = (settings.ofJson value).toOption := by
  have hvalue : settingsOfJson value = (settings.ofJson value).mapError Fault.message := by
    cases value with
    | null => exact absurd rfl h
    | _ => rfl
  rw [hvalue, toOption_mapError]

theorem ignoreOrder_settings : settingsRecord.fields.IgnoreOrder :=
  ⟨ignoresOrder_text, ignoresOrder_nat _ _, ignoresOrder_nat _ _, ignoresOrder_bool, trivial⟩

/-- Unless a text that is parsed repeats a key, text and value give the same settings, or neither
does. Only null is told apart. -/
theorem settings_agree {text : String} {value : Json} (hparse : parse text = .ok value) :
    (RepeatsNoKey text ∨ RepeatsKey text) ∧
      (RepeatsNoKey text →
        (value ≠ .null → (settingsOfText text).toOption = (settingsOfJson value).toOption) ∧
        (value = .null → settingsOfJson value = .ok Settings.standard ∧
          ∃ message, settingsOfText text = .error message)) := by
  refine ⟨repeatsNoKey_or_repeatsKey hparse, ?_⟩
  rintro ⟨json, htext, honce⟩
  obtain rfl := canonical_of_parse htext hparse
  have hread : (settingsOfText text).toOption = (settings.ofJson json.canonical).toOption := by
    calc (settingsOfText text).toOption
      _ = (readAll settings.read text).toOption := toOption_mapError _ _
      _ = (settings.ofJson json).toOption := lawful_settings.agrees.toOption_readAll htext
      _ = (settings.ofJson json.canonical).toOption :=
        (settingsRecord.toOption_ofJson_canonical ignoreOrder_settings honce).symm
  refine ⟨fun hvalue ↦ hread.trans (toOption_settingsOfJson hvalue).symm, fun hvalue ↦ ?_⟩
  rw [hvalue] at hread ⊢
  refine ⟨rfl, ?_⟩
  cases hresult : settingsOfText text with
  | error message => exact ⟨message, rfl⟩
  | ok found =>
    rw [hresult] at hread
    cases hread

/-- The members of the value stand in another order than those of the text. -/
theorem settings_agree_members :
    (settingsOfText "\x7b\"tabSize\":2,\"extra\":[]\x7d").toOption =
      (settingsOfJson (.object [("extra", .array []), ("tabSize", .ofNat 2)])).toOption := by
  have hparse : parse "\x7b\"tabSize\":2,\"extra\":[]\x7d" =
      .ok (.object [("extra", .array []), ("tabSize", .ofNat 2)]) := by rfl
  have hkeys : RepeatsNoKey "\x7b\"tabSize\":2,\"extra\":[]\x7d" := by
    have hplain : Plain (.object [("tabSize", .ofNat 2), ("extra", .array [])]) :=
      ⟨⟨2, by decide, rfl⟩, trivial, trivial⟩
    have hwritten : (Json.object [("tabSize", .ofNat 2), ("extra", .array [])]).compact =
        "\x7b\"tabSize\":2,\"extra\":[]\x7d" := by decide +kernel
    exact ⟨_, hwritten ▸ spellsText_compact hplain, by simp [KeysOnce]⟩
  exact ((settings_agree hparse).2 hkeys).1 nofun

end ScriptSense.Wire
