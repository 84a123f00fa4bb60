import ScriptSense.Proofs.Json.Write
import ScriptSense.Proofs.Wire.Fields
import ScriptSense.Proofs.Wire.Members

/-!
# Values survive the wire

A codec carries a value if it makes the value again of what it writes for it. A record carries its
values however its members are permuted and whatever stands among them, and as a list of its fields.
-/

namespace ScriptSense.Wire

open Json

/-- What the codec writes for the value is plain, and the codec makes the value of it again. -/
structure Codec.Carries {α : Type} (codec : Codec α) (value : α) : Prop where
  plain : (codec.toJson value).Plain
  ofJson_toJson : codec.ofJson (codec.toJson value) = .ok value

namespace Codec

theorem carries_nat (name : String) {limit value : Nat} (hlimit : limit ≤ maxDigits)
    (h : value ≤ limit) : (nat name limit).Carries value where
  plain := ⟨value, h.trans hlimit, rfl⟩
  ofJson_toJson := by simp [nat, ofNat, natOfNumber, h]

theorem carries_bool (value : Bool) : bool.Carries value :=
  ⟨trivial, rfl⟩

theorem carries_text (value : String) : text.Carries value :=
  ⟨trivial, rfl⟩

theorem carries_none {α : Type} (codec : Codec α) : codec.optional.Carries none :=
  ⟨trivial, rfl⟩

/-- Null stands for the absence of a value, so a value is not written as null. -/
theorem carries_some {α : Type} {codec : Codec α} {value : α} (h : codec.Carries value)
    (hne : codec.toJson value ≠ .null) : codec.optional.Carries (some value) where
  plain := h.plain
  ofJson_toJson := by
    have hjson := ofJson_optional codec hne
    rw [h.ofJson_toJson] at hjson
    exact hjson

theorem carries_list {α : Type} {codec : Codec α} {values : List α}
    (h : ∀ value ∈ values, codec.Carries value) : codec.list.Carries values := by
  induction values with
  | nil => exact ⟨trivial, rfl⟩
  | cons value rest ih =>
    have hvalue := h value List.mem_cons_self
    have hrest := ih fun value hmem ↦ h value (List.mem_cons_of_mem _ hmem)
    refine ⟨⟨hvalue.plain, hrest.plain⟩, ?_⟩
    have hitems : (rest.map codec.toJson).mapM codec.ofJson = .ok rest := hrest.ofJson_toJson
    simp only [list, List.map_cons, List.mapM_cons, hvalue.ofJson_toJson, hitems]
    rfl

theorem carries_choice {α : Type} {choices : Choices α} {value : α}
    (h : choices.all.find? (choices.name · == choices.name value) = some value) :
    (choice choices).Carries value where
  plain := trivial
  ofJson_toJson := by simp [choice, Choices.ofName, h]

variable {α : Type} {codec : Codec α} {value : α}

theorem Agrees.readAll_eq_ok (h : codec.Agrees) {json : Json} {text : String}
    (htext : SpellsText json text) (hjson : codec.ofJson json = .ok value) :
    readAll codec.read text = .ok value := by
  have hread := h.toOption_readAll htext
  rw [hjson] at hread
  cases hresult : readAll codec.read text with
  | error failure =>
    rw [hresult] at hread
    cases hread
  | ok found =>
    rw [hresult] at hread
    obtain rfl := Option.some.inj hread
    rfl

/-- The value is read from what is written for it, on one line or over several. -/
structure Restores (codec : Codec α) (value : α) : Prop where
  compact : readAll codec.read (codec.toJson value).compact = .ok value
  pretty : readAll codec.read (codec.toJson value).pretty = .ok value

theorem Agrees.restores (h : codec.Agrees) (hvalue : codec.Carries value) :
    codec.Restores value where
  compact := h.readAll_eq_ok (spellsText_compact hvalue.plain) hvalue.ofJson_toJson
  pretty := h.readAll_eq_ok (spellsText_pretty hvalue.plain) hvalue.ofJson_toJson

end Codec

namespace Fields

variable {types : List Type}

/-- Each codec carries the value of its field. -/
def Carry : {types : List Type} → Fields types → Values types → Prop
  | _, .nil, () => True
  | _, .cons field rest, (value, values) => field.codec.Carries value ∧ rest.Carry values

/-- The members of an object that gives the values. It may leave out a value that stands for the
absence of its field. -/
def Shows : {types : List Type} → Fields types → Values types → List (String × Json) → Prop
  | _, .nil, (), shown => shown = []
  | _, .cons field rest, (value, values), shown =>
    (∃ more, shown = (field.key, field.codec.toJson value) :: more ∧ rest.Shows values more) ∨
      (field.absent = some value ∧ rest.Shows values shown)

theorem shows_toMembers (fields : Fields types) (values : Values types) :
    fields.Shows values (fields.toMembers values) := by
  induction fields with
  | nil => rfl
  | cons field rest ih => exact .inl ⟨_, rfl, ih values.2⟩

theorem Shows.mem_keys {fields : Fields types} {values : Values types}
    {shown : List (String × Json)} (h : fields.Shows values shown) {member : String × Json}
    (hmember : member ∈ shown) : member.1 ∈ fields.keys := by
  induction fields generalizing shown with
  | nil =>
    obtain rfl := h
    cases hmember
  | cons field rest ih =>
    obtain ⟨more, rfl, hmore⟩ | ⟨-, hshown⟩ := h
    · rcases List.mem_cons.mp hmember with rfl | hmember
      · exact List.mem_cons_self
      · exact List.mem_cons_of_mem _ (ih hmore hmember)
    · exact List.mem_cons_of_mem _ (ih hshown hmember)

/-- Each field is given once, in any place among the members, or it is left out and has the value
that stands for its absence. -/
def Given : {types : List Type} → Fields types → Values types → List (String × Json) → Prop
  | _, .nil, (), _ => True
  | _, .cons field rest, (value, values), members =>
    (members.filter (·.1 = field.key) = [(field.key, field.codec.toJson value)] ∨
      (members.filter (·.1 = field.key) = [] ∧ field.absent = some value)) ∧
      rest.Given values members

theorem given_of_shows {fields : Fields types} (hkeys : fields.keys.Nodup) {values : Values types}
    {shown others members : List (String × Json)} (hshown : fields.Shows values shown)
    (hothers : ∀ member ∈ others, member.1 ∉ fields.keys) (hperm : members.Perm (shown ++ others)) :
    fields.Given values members := by
  induction fields generalizing shown others with
  | nil => trivial
  | cons field rest ih =>
    obtain ⟨value, values⟩ := values
    obtain ⟨hkey, hrest⟩ := List.nodup_cons.mp hkeys
    have hnone {list : List (String × Json)} (h : ∀ member ∈ list, member.1 ≠ field.key) :
        list.filter (·.1 = field.key) = [] :=
      List.filter_eq_nil_iff.mpr fun member hmember ↦ by simpa using h member hmember
    have hothersKey := hnone fun member hmember heq ↦
      hothers member hmember (heq ▸ List.mem_cons_self)
    have hothersRest : ∀ member ∈ others, member.1 ∉ rest.keys := fun member hmember hmem ↦
      hothers member hmember (List.mem_cons_of_mem _ hmem)
    have hfilter := hperm.filter (·.1 = field.key)
    obtain ⟨more, rfl, hmore⟩ | ⟨habsent, hshown⟩ := hshown
    · have hmoreKey := hnone fun member hmember heq ↦ hkey (heq ▸ hmore.mem_keys hmember)
      rw [List.filter_append, List.filter_cons_of_pos (by simp), hmoreKey, hothersKey] at hfilter
      have hswap : members.Perm (more ++ (field.key, field.codec.toJson value) :: others) :=
        hperm.trans List.perm_middle.symm
      refine ⟨.inl (List.perm_singleton.mp hfilter), ih hrest hmore ?_ hswap⟩
      intro member hmember
      rcases List.mem_cons.mp hmember with rfl | hmember
      · exact hkey
      · exact hothersRest member hmember
    · have hshownKey := hnone fun member hmember heq ↦ hkey (heq ▸ hshown.mem_keys hmember)
      rw [List.filter_append, hshownKey, hothersKey] at hfilter
      exact ⟨.inr ⟨List.perm_nil.mp hfilter, habsent⟩, ih hrest hshown hothersRest hperm⟩

theorem Given.take {fields : Fields types} {values : Values types}
    {members : List (String × Json)} (h : fields.Given values members)
    (hcarry : fields.Carry values) : fields.Take members values := by
  induction fields with
  | nil => trivial
  | cons field rest ih =>
    obtain ⟨hfield, hrest⟩ := h
    obtain ⟨hvalue, hcarry⟩ := hcarry
    exact ⟨hfield.imp_left fun honce ↦ ⟨_, honce, hvalue.ofJson_toJson⟩, ih hrest hcarry⟩

theorem takeItems_toMembers (name : String) (total : Nat) {fields : Fields types}
    {values : Values types} (hcarry : fields.Carry values) (index : Nat) :
    fields.takeItems name total index ((fields.toMembers values).map Prod.snd) =
      .ok (values, []) := by
  induction fields generalizing index with
  | nil => rfl
  | cons field fields ih =>
    obtain ⟨value, values⟩ := values
    obtain ⟨hvalue, hcarry⟩ := hcarry
    simp only [toMembers, List.map_cons, takeItems, hvalue.ofJson_toJson, ih hcarry]
    rfl

theorem plainMembers_toMembers {fields : Fields types} {values : Values types}
    (hcarry : fields.Carry values) : PlainMembers (fields.toMembers values) := by
  induction fields with
  | nil => trivial
  | cons field fields ih => exact ⟨hcarry.1.plain, ih hcarry.2⟩

end Fields

namespace Record

variable {ρ : Type}

/-- No two fields have the same key, a value is made again of its fields, and each field is read
from texts as from JSON values. -/
structure Lawful (record : Record ρ) : Prop where
  keys_nodup : record.fields.keys.Nodup
  make_split : ∀ value, record.make (record.split value) = value
  agree : record.fields.Agree

/-- The codecs of the fields carry the parts of the value. -/
def Carries (record : Record ρ) (value : ρ) : Prop :=
  record.fields.Carry (record.split value)

/-- The value is read from each of its forms: as it is written; as an object of its fields in any
order, with any other members among them and spelled in any way, where a field may be missing whose
value stands for its absence; and as the list of its fields. -/
structure Survives (record : Record ρ) (value : ρ) : Prop where
  written : record.codec.Restores value
  object : ∀ shown others members text, record.fields.Shows (record.split value) shown →
    (∀ member ∈ others, member.1 ∉ record.fields.keys) → members.Perm (shown ++ others) →
      SpellsText (.object members) text → readAll record.codec.read text = .ok value
  array : ∀ text,
    SpellsText (.array ((record.fields.toMembers (record.split value)).map Prod.snd)) text →
      readAll record.codec.read text = .ok value

theorem ofObject_shows {record : Record ρ} (h : record.Lawful) {value : ρ}
    (hvalue : record.Carries value) {shown others members : List (String × Json)}
    (hshown : record.fields.Shows (record.split value) shown)
    (hothers : ∀ member ∈ others, member.1 ∉ record.fields.keys)
    (hperm : members.Perm (shown ++ others)) : record.ofObject members = .ok value := by
  have hgiven := Fields.given_of_shows h.keys_nodup hshown hothers hperm
  rw [ofObject_eq_ok_iff h.keys_nodup]
  exact ⟨record.split value, hgiven.take hvalue, h.make_split value⟩

theorem Lawful.agrees {record : Record ρ} (h : record.Lawful) : record.codec.Agrees :=
  record.agrees_codec h.agree

theorem Lawful.carries {record : Record ρ} (h : record.Lawful) {value : ρ}
    (hvalue : record.Carries value) : record.codec.Carries value where
  plain := Fields.plainMembers_toMembers hvalue
  ofJson_toJson := by
    have hshown := Fields.shows_toMembers record.fields (record.split value)
    exact ofObject_shows h hvalue hshown (List.forall_mem_nil _) (by rw [List.append_nil])

theorem Lawful.survives {record : Record ρ} (h : record.Lawful) {value : ρ}
    (hvalue : record.Carries value) : record.Survives value where
  written := h.agrees.restores (h.carries hvalue)
  object _ _ _ _ hshown hothers hperm htext :=
    h.agrees.readAll_eq_ok htext (ofObject_shows h hvalue hshown hothers hperm)
  array _ htext := by
    apply h.agrees.readAll_eq_ok htext
    simp only [codec, ofList, Fields.takeItems_toMembers _ _ hvalue, h.make_split]

end Record

end ScriptSense.Wire
