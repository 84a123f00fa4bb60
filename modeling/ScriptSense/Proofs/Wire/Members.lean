import Mathlib.Data.List.Nodup
import ScriptSense.Wire.Record

/-!
# The members of an object

Each member of an object goes to the field with its key, if there is one. So an object is read field
by field: a field takes the value of the one member with its key, or else its default, and members
with other keys do not matter.
-/

namespace ScriptSense.Wire

open Json

theorem foldlM_cons_eq_ok {σ β : Type} {f : σ → β → Except Fault σ} {item : β} {rest : List β}
    {state last : σ} :
    (item :: rest).foldlM f state = .ok last ↔
      ∃ next, f state item = .ok next ∧ rest.foldlM f next = .ok last := by
  rw [List.foldlM_cons]
  cases hnext : f state item with
  | error fault => exact ⟨nofun, by simp⟩
  | ok next =>
    refine ⟨fun h ↦ ⟨next, rfl, h⟩, ?_⟩
    rintro ⟨found, hfound, h⟩
    obtain rfl := Except.ok.inj hfound
    exact h

namespace Field

variable {α : Type}

/-- Takes a member with the key of the field into its slot. -/
def takeOnce (field : Field α) : Option α → String × Json → Except Fault (Option α)
  | some _, member => .error (.duplicateField member.1)
  | none, member => (field.codec.ofJson member.2).map some

/-- The value is that of the one member with the key of the field, or stands for its absence. -/
def Takes (field : Field α) (members : List (String × Json)) (value : α) : Prop :=
  (∃ json, members.filter (·.1 = field.key) = [(field.key, json)] ∧
      field.codec.ofJson json = .ok value) ∨
    members.filter (·.1 = field.key) = [] ∧ field.absent = some value

theorem takeOnce_eq_ok {field : Field α} {slot next : Option α} {member : String × Json} :
    field.takeOnce slot member = .ok next ↔
      slot = none ∧ ∃ value, field.codec.ofJson member.2 = .ok value ∧ next = some value := by
  cases slot with
  | some found => exact ⟨nofun, nofun⟩
  | none =>
    cases hvalue : field.codec.ofJson member.2 with
    | error fault => simp [takeOnce, hvalue, Except.map]
    | ok value => simp [takeOnce, hvalue, Except.map, eq_comm]

/-- What a field takes from no member and from one; two are too many. -/
theorem foldlM_takeOnce_eq_ok {field : Field α} {own : List (String × Json)} {slot : Option α} :
    own.foldlM field.takeOnce none = .ok slot ↔ (own = [] ∧ slot = none) ∨
      ∃ member value, own = [member] ∧ field.codec.ofJson member.2 = .ok value ∧
        slot = some value := by
  cases own with
  | nil =>
    rw [List.foldlM_nil]
    simp [pure, Except.pure, eq_comm]
  | cons member rest =>
    cases rest with
    | nil =>
      simp only [foldlM_cons_eq_ok, takeOnce_eq_ok]
      simp [pure, Except.pure, eq_comm]
    | cons second rest =>
      simp only [foldlM_cons_eq_ok, takeOnce_eq_ok]
      constructor
      · rintro ⟨_, ⟨-, value, -, rfl⟩, _, ⟨hslot, -⟩, -⟩
        cases hslot
      · rintro (⟨hnil, -⟩ | ⟨_, _, hone, -⟩)
        · cases hnil
        · cases hone

/-- A field takes its value from the members that have its key. -/
theorem exists_slot_iff {field : Field α} {members : List (String × Json)} {value : α} :
    (∃ slot, (members.filter (·.1 = field.key)).foldlM field.takeOnce none = .ok slot ∧
      slot.or field.absent = some value) ↔ field.Takes members value := by
  have hkey {member : String × Json} (h : members.filter (·.1 = field.key) = [member]) :
      member = (field.key, member.2) := by
    have hmember : member ∈ members.filter (·.1 = field.key) := h ▸ List.mem_singleton_self _
    exact Prod.ext (by simpa using List.of_mem_filter hmember) rfl
  simp only [foldlM_takeOnce_eq_ok]
  constructor
  · rintro ⟨slot, ⟨hnone, rfl⟩ | ⟨member, found, hone, hfound, rfl⟩, hvalue⟩
    · exact .inr ⟨hnone, hvalue⟩
    · obtain rfl : found = value := Option.some.inj hvalue
      exact .inl ⟨member.2, hkey hone ▸ hone, hfound⟩
  · rintro (⟨json, hone, hjson⟩ | ⟨hnone, habsent⟩)
    · exact ⟨some value, .inr ⟨_, value, hone, hjson, rfl⟩, rfl⟩
    · exact ⟨none, .inl ⟨hnone, rfl⟩, habsent⟩

end Field

namespace Fields

variable {types : List Type}

def keys : {types : List Type} → Fields types → List String
  | _, .nil => []
  | _, .cons field rest => field.key :: rest.keys

/-- Each field takes its value from the members. -/
def Take : {types : List Type} → Fields types → List (String × Json) → Values types → Prop
  | _, .nil, _, () => True
  | _, .cons field rest, members, (value, values) =>
    field.Takes members value ∧ rest.Take members values

theorem takeMember_cons_ne {α : Type} (field : Field α) (fields : Fields types)
    {member : String × Json} (h : member.1 ≠ field.key) (state : Slots (α :: types)) :
    (Fields.cons field fields).takeMember state member =
      (fields.takeMember state.2 member).map (state.1, ·) := by
  obtain ⟨slot, slots⟩ := state
  simp only [takeMember, Ne.symm h, if_false]
  cases fields.takeMember slots member <;> rfl

/-- A member is taken into the slot of its field if that is empty, or else into the other slots. -/
theorem takeMember_cons_eq_ok {α : Type} (field : Field α) (fields : Fields types)
    {member : String × Json} {state next : Slots (α :: types)} :
    (Fields.cons field fields).takeMember state member = .ok next ↔
      (member.1 = field.key ∧ state.1 = none ∧
        ∃ value, field.codec.ofJson member.2 = .ok value ∧ next = (some value, state.2)) ∨
      (member.1 ≠ field.key ∧
        ∃ slots, fields.takeMember state.2 member = .ok slots ∧ next = (state.1, slots)) := by
  by_cases hmember : member.1 = field.key
  · obtain ⟨slot, slots⟩ := state
    simp only [takeMember, hmember, if_true]
    cases slot with
    | some found => simp
    | none =>
      cases field.codec.ofJson member.2 with
      | error fault => simp
      | ok value =>
        refine ⟨fun h ↦ .inl ⟨trivial, rfl, value, rfl, (Except.ok.inj h).symm⟩, ?_⟩
        rintro (⟨-, -, found, hfound, rfl⟩ | ⟨hne, -⟩)
        · rw [Except.ok.inj hfound]
        · exact absurd rfl hne
  · rw [takeMember_cons_ne field fields hmember]
    cases fields.takeMember state.2 member with
    | error fault => simp [Except.map, hmember]
    | ok slots =>
      refine ⟨fun h ↦ .inr ⟨hmember, slots, rfl, (Except.ok.inj h).symm⟩, ?_⟩
      rintro (⟨hkey, -⟩ | ⟨-, found, hfound, rfl⟩)
      · exact absurd hkey hmember
      · rw [← Except.ok.inj hfound]
        rfl

/-- The members of one field and those of the others do not touch each other's slots. -/
theorem foldlM_takeMember_cons_eq_ok {α : Type} (field : Field α) (fields : Fields types)
    {members : List (String × Json)} {state last : Slots (α :: types)} :
    members.foldlM (Fields.cons field fields).takeMember state = .ok last ↔
      (members.filter (·.1 = field.key)).foldlM field.takeOnce state.1 = .ok last.1 ∧
        (members.filter (·.1 ≠ field.key)).foldlM fields.takeMember state.2 = .ok last.2 := by
  induction members generalizing state with
  | nil =>
    constructor
    · intro h
      obtain rfl : state = last := Except.ok.inj h
      exact ⟨rfl, rfl⟩
    · rintro ⟨hown, hothers⟩
      exact congrArg Except.ok (Prod.ext (Except.ok.inj hown) (Except.ok.inj hothers))
  | cons member rest ih =>
    rw [foldlM_cons_eq_ok]
    by_cases hmember : member.1 = field.key
    · rw [List.filter_cons_of_pos (by simpa using hmember),
        List.filter_cons_of_neg (by simpa using hmember), foldlM_cons_eq_ok]
      constructor
      · rintro ⟨next, htake, hrest⟩
        obtain ⟨-, hslot, value, hvalue, rfl⟩ | ⟨hne, -⟩ := (takeMember_cons_eq_ok ..).mp htake
        · obtain ⟨hown, hothers⟩ := ih.mp hrest
          exact ⟨⟨some value, Field.takeOnce_eq_ok.mpr ⟨hslot, value, hvalue, rfl⟩, hown⟩, hothers⟩
        · exact absurd hmember hne
      · rintro ⟨⟨slot, htake, hown⟩, hothers⟩
        obtain ⟨hslot, value, hvalue, rfl⟩ := Field.takeOnce_eq_ok.mp htake
        exact ⟨(some value, state.2),
          (takeMember_cons_eq_ok ..).mpr (.inl ⟨hmember, hslot, value, hvalue, rfl⟩),
          ih.mpr ⟨hown, hothers⟩⟩
    · rw [List.filter_cons_of_neg (by simpa using hmember),
        List.filter_cons_of_pos (by simpa using hmember), foldlM_cons_eq_ok]
      constructor
      · rintro ⟨next, htake, hrest⟩
        obtain ⟨hkey, -⟩ | ⟨-, slots, hslots, rfl⟩ := (takeMember_cons_eq_ok ..).mp htake
        · exact absurd hkey hmember
        · obtain ⟨hown, hothers⟩ := ih.mp hrest
          exact ⟨hown, slots, hslots, hothers⟩
      · rintro ⟨hown, slots, hslots, hothers⟩
        exact ⟨(state.1, slots),
          (takeMember_cons_eq_ok ..).mpr (.inr ⟨hmember, slots, hslots, rfl⟩),
          ih.mpr ⟨hown, hothers⟩⟩

/-- Members with another key are nothing to a field. -/
theorem take_filter_ne_iff {fields : Fields types} {members : List (String × Json)}
    {values : Values types} {key : String} (hkey : key ∉ fields.keys) :
    fields.Take (members.filter (·.1 ≠ key)) values ↔ fields.Take members values := by
  induction fields with
  | nil => exact Iff.rfl
  | cons field rest ih =>
    obtain ⟨value, values⟩ := values
    simp only [keys, List.mem_cons, not_or] at hkey
    have hfilter : (members.filter (·.1 ≠ key)).filter (·.1 = field.key) =
        members.filter (·.1 = field.key) := by
      rw [List.filter_filter]
      apply List.filter_congr
      intro member _
      by_cases hmember : member.1 = field.key
      · simp [hmember, Ne.symm hkey.1]
      · simp [hmember]
    simp only [Take, Field.Takes, hfilter, ih hkey.2]

theorem fill_cons_eq_ok {α : Type} {field : Field α} {fields : Fields types} {slot : Option α}
    {slots : Slots types} {value : α} {values : Values types} :
    (Fields.cons field fields).fill (slot, slots) = .ok (value, values) ↔
      slot.or field.absent = some value ∧ fields.fill slots = .ok values := by
  rw [fill]
  cases slot.or field.absent with
  | none => simp
  | some found =>
    cases fields.fill slots with
    | error fault => simp
    | ok others =>
      simp only [Except.ok.injEq, Option.some_inj]
      constructor
      · intro h
        have hpair := Except.ok.inj h
        exact ⟨congrArg Prod.fst hpair, congrArg Prod.snd hpair⟩
      · rintro ⟨rfl, rfl⟩
        rfl

/-- The members are taken and leave no field without a value if and only if each field takes its
value from them. -/
theorem exists_fill_iff {fields : Fields types} (hkeys : fields.keys.Nodup)
    {members : List (String × Json)} {values : Values types} :
    (∃ slots, members.foldlM fields.takeMember fields.emptySlots = .ok slots ∧
      fields.fill slots = .ok values) ↔ fields.Take members values := by
  induction fields generalizing members with
  | nil =>
    refine ⟨fun _ ↦ trivial, fun _ ↦ ⟨(), ?_, rfl⟩⟩
    induction members with
    | nil => rfl
    | cons member rest ih => exact ih trivial
  | cons field fields ih =>
    obtain ⟨value, values⟩ := values
    obtain ⟨hkey, hkeys⟩ := List.nodup_cons.mp hkeys
    rw [Take, ← take_filter_ne_iff hkey, ← ih hkeys, ← Field.exists_slot_iff]
    constructor
    · rintro ⟨⟨slot, slots⟩, hfold, hfill⟩
      obtain ⟨hown, hothers⟩ := (foldlM_takeMember_cons_eq_ok field fields).mp hfold
      obtain ⟨hvalue, hvalues⟩ := fill_cons_eq_ok.mp hfill
      exact ⟨⟨slot, hown, hvalue⟩, slots, hothers, hvalues⟩
    · rintro ⟨⟨slot, hown, hvalue⟩, slots, hothers, hvalues⟩
      exact ⟨(slot, slots), (foldlM_takeMember_cons_eq_ok field fields).mpr ⟨hown, hothers⟩,
        fill_cons_eq_ok.mpr ⟨hvalue, hvalues⟩⟩

end Fields

/-- A record is read from an object if each of its fields takes a value from the members, and it is
made of these values. -/
theorem Record.ofObject_eq_ok_iff {ρ : Type} {record : Record ρ}
    (hkeys : record.fields.keys.Nodup) {members : List (String × Json)} {result : ρ} :
    record.ofObject members = .ok result ↔
      ∃ values, record.fields.Take members values ∧ record.make values = result := by
  simp only [← Fields.exists_fill_iff hkeys, ofObject]
  cases members.foldlM record.fields.takeMember record.fields.emptySlots with
  | error fault => simp
  | ok slots => cases hfill : record.fields.fill slots <;> simp [hfill, Except.map]

end ScriptSense.Wire
