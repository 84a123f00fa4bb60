import ScriptSense.Proofs.Json.Numeral
import ScriptSense.Proofs.Wire.Settings

/-!
# Settings from an object

The members of an object are looked at one key at a time. A setting whose key has no member keeps
its default, whatever the other members are; two members with the key of a setting, or one with a
value of another kind, leave no settings at all.
-/

namespace ScriptSense.Wire

open Json

theorem ofNat_injective : Function.Injective ofNat :=
  fun _ _ h ↦ Int.ofNat.inj (Number.integer.inj (number.inj h))

/-- The codec reads what it writes for the allowed values, and nothing else. -/
def Codec.ReadsOnly {α : Type} (codec : Codec α) (allowed : α → Prop) : Prop :=
  ∀ json value, codec.ofJson json = .ok value ↔ json = codec.toJson value ∧ allowed value

theorem readsOnly_text : Codec.text.ReadsOnly fun _ ↦ True := by
  intro json value
  cases json <;> simp [Codec.text]

theorem readsOnly_bool : Codec.bool.ReadsOnly fun _ ↦ True := by
  intro json value
  cases json <;> simp [Codec.bool]

theorem readsOnly_nat (name : String) (limit : Nat) :
    (Codec.nat name limit).ReadsOnly (· ≤ limit) := by
  intro json value
  cases json with
  | number number =>
    cases number with
    | integer found =>
      have hwritten : number (.integer found) = ofNat value ↔ found = value := by simp [ofNat]
      simp only [Codec.nat, Codec.natOfNumber, hwritten]
      split
      · rename_i hbounds
        rw [Except.ok.injEq]
        omega
      · rename_i hbounds
        simp only [reduceCtorEq, false_iff]
        omega
    | floating negative digits power => simp [Codec.nat, Codec.natOfNumber, ofNat]
  | _ => simp [Codec.nat, ofNat]

/-- No two members have the key, and a member that has it has an allowed value. -/
structure Admits {α : Type} (members : List (String × Json)) (key : String) (toJson : α → Json)
    (allowed : α → Prop) : Prop where
  once : (members.map Prod.fst).count key ≤ 1
  fits : ∀ json, (key, json) ∈ members → ∃ value, json = toJson value ∧ allowed value

/-- The value is that of the member with the key, or the default if no member has it. -/
structure Follows {α : Type} (members : List (String × Json)) (key : String) (toJson : α → Json)
    (standard value : α) : Prop where
  given : ∀ json, (key, json) ∈ members → json = toJson value
  missing : key ∉ members.map Prod.fst → value = standard

section Key

variable {members : List (String × Json)} {key : String} {json : Json}

theorem length_filter_key (members : List (String × Json)) (key : String) :
    (members.filter (·.1 = key)).length = (members.map Prod.fst).count key := by
  rw [List.count_eq_countP, List.countP_map, List.countP_eq_length_filter]
  rfl

theorem mem_iff_of_filter_key (h : members.filter (·.1 = key) = [(key, json)]) (other : Json) :
    (key, other) ∈ members ↔ other = json := by
  have hmem : (key, other) ∈ members.filter (·.1 = key) ↔ (key, other) ∈ members := by simp
  rw [← hmem, h]
  simp

theorem notMem_of_filter_key (h : members.filter (·.1 = key) = []) (other : Json) :
    (key, other) ∉ members := by
  intro hmem
  have hkept := List.mem_filter_of_mem (p := (·.1 = key)) hmem (by simp)
  rw [h] at hkept
  cases hkept

variable {α : Type} {codec : Codec α} {allowed : α → Prop} {standard value : α}

theorem takes_withDefault_iff (hreads : codec.ReadsOnly allowed) :
    (Field.withDefault key codec standard).Takes members value ↔
      members.filter (·.1 = key) = [(key, codec.toJson value)] ∧ allowed value ∨
        members.filter (·.1 = key) = [] ∧ value = standard := by
  apply or_congr
  · constructor
    · rintro ⟨json, hone, hjson⟩
      obtain ⟨rfl, hallowed⟩ := (hreads json value).mp hjson
      exact ⟨hone, hallowed⟩
    · rintro ⟨hone, hallowed⟩
      exact ⟨_, hone, (hreads _ value).mpr ⟨rfl, hallowed⟩⟩
  · exact and_congr_right fun _ ↦ Option.some_inj.trans eq_comm

/-- A field with a default takes a value from the members if and only if they admit one. -/
theorem exists_takes_iff (hreads : codec.ReadsOnly allowed) (standard : α) :
    (∃ value, (Field.withDefault key codec standard).Takes members value) ↔
      Admits members key codec.toJson allowed := by
  simp only [takes_withDefault_iff hreads]
  constructor
  · rintro ⟨value, ⟨hone, hallowed⟩ | ⟨hnone, -⟩⟩
    · refine ⟨by rw [← length_filter_key, hone, List.length_singleton], fun other hother ↦ ?_⟩
      exact ⟨value, (mem_iff_of_filter_key hone other).mp hother, hallowed⟩
    · refine ⟨by rw [← length_filter_key, hnone]; exact Nat.zero_le _, fun other hother ↦ ?_⟩
      exact absurd hother (notMem_of_filter_key hnone other)
  · rintro ⟨honce, hfits⟩
    rw [← length_filter_key] at honce
    cases hown : members.filter (·.1 = key) with
    | nil => exact ⟨standard, .inr ⟨rfl, rfl⟩⟩
    | cons member rest =>
      rw [hown, List.length_cons] at honce
      obtain rfl : rest = [] := List.length_eq_zero_iff.mp (by omega)
      have hmember : member ∈ members.filter (·.1 = key) := hown ▸ List.mem_cons_self
      obtain ⟨hmem, hkey⟩ := List.mem_filter.mp hmember
      obtain ⟨found, json⟩ := member
      obtain rfl : found = key := of_decide_eq_true hkey
      obtain ⟨value, rfl, hallowed⟩ := hfits json hmem
      exact ⟨value, .inl ⟨rfl, hallowed⟩⟩

theorem follows_of_takes (hreads : codec.ReadsOnly allowed)
    (h : (Field.withDefault key codec standard).Takes members value) :
    Follows members key codec.toJson standard value := by
  rcases (takes_withDefault_iff hreads).mp h with ⟨hone, -⟩ | ⟨hnone, hvalue⟩
  · have hmem := (mem_iff_of_filter_key hone _).mpr rfl
    exact ⟨fun other hother ↦ (mem_iff_of_filter_key hone other).mp hother,
      fun hmissing ↦ absurd (List.mem_map_of_mem hmem) hmissing⟩
  · exact ⟨fun other hother ↦ absurd hother (notMem_of_filter_key hnone other), fun _ ↦ hvalue⟩

end Key

/-- The members give settings: a text, two numbers within 64 and 32 bits, and a truth value. -/
structure AdmitsSettings (members : List (String × Json)) : Prop where
  diagnosticSource : Admits members "diagnosticSource" Json.string fun _ ↦ True
  maxProblems : Admits members "maxNumberOfProblems" ofNat (· ≤ 0xFFFFFFFFFFFFFFFF)
  tabSize : Admits members "tabSize" ofNat (· ≤ 0xFFFFFFFF)
  insertSpaces : Admits members "insertSpaces" Json.bool fun _ ↦ True

/-- Each of the settings is the given one, or the standard one if none is given. -/
structure FollowsSettings (members : List (String × Json)) (settings : Settings) : Prop where
  diagnosticSource : Follows members "diagnosticSource" Json.string
    Settings.standard.diagnosticSource settings.diagnosticSource
  maxProblems : Follows members "maxNumberOfProblems" ofNat
    Settings.standard.maxProblems settings.maxProblems
  tabSize : Follows members "tabSize" ofNat Settings.standard.tabSize settings.tabSize
  insertSpaces : Follows members "insertSpaces" Json.bool
    Settings.standard.insertSpaces settings.insertSpaces

/-- The fields of the settings take their values from the members. -/
structure TakesSettings (members : List (String × Json)) (settings : Settings) : Prop where
  diagnosticSource : (Field.withDefault "diagnosticSource" Codec.text
    Settings.standard.diagnosticSource).Takes members settings.diagnosticSource
  maxProblems : (Field.withDefault "maxNumberOfProblems" Codec.word64
    Settings.standard.maxProblems).Takes members settings.maxProblems
  tabSize : (Field.withDefault "tabSize" Codec.word32
    Settings.standard.tabSize).Takes members settings.tabSize
  insertSpaces : (Field.withDefault "insertSpaces" Codec.bool
    Settings.standard.insertSpaces).Takes members settings.insertSpaces

section Settings

variable {members : List (String × Json)} {text : String} {settings : Settings}

theorem TakesSettings.follows (h : TakesSettings members settings) :
    FollowsSettings members settings where
  diagnosticSource := follows_of_takes readsOnly_text h.diagnosticSource
  maxProblems := follows_of_takes (readsOnly_nat _ _) h.maxProblems
  tabSize := follows_of_takes (readsOnly_nat _ _) h.tabSize
  insertSpaces := follows_of_takes readsOnly_bool h.insertSpaces

theorem exists_takesSettings_iff :
    (∃ settings, TakesSettings members settings) ↔ AdmitsSettings members := by
  constructor
  · rintro ⟨settings, hsource, hlimit, hsize, hspaces⟩
    exact ⟨(exists_takes_iff readsOnly_text _).mp ⟨_, hsource⟩,
      (exists_takes_iff (readsOnly_nat _ _) _).mp ⟨_, hlimit⟩,
      (exists_takes_iff (readsOnly_nat _ _) _).mp ⟨_, hsize⟩,
      (exists_takes_iff readsOnly_bool _).mp ⟨_, hspaces⟩⟩
  · rintro ⟨hsource, hlimit, hsize, hspaces⟩
    obtain ⟨source, hsource⟩ := (exists_takes_iff readsOnly_text _).mpr hsource
    obtain ⟨limit, hlimit⟩ := (exists_takes_iff (readsOnly_nat "usize" _) _).mpr hlimit
    obtain ⟨size, hsize⟩ := (exists_takes_iff (readsOnly_nat "u32" _) _).mpr hsize
    obtain ⟨spaces, hspaces⟩ := (exists_takes_iff readsOnly_bool _).mpr hspaces
    exact ⟨⟨source, limit, size, spaces⟩, hsource, hlimit, hsize, hspaces⟩

theorem ofObject_settings_iff :
    settingsRecord.ofObject members = .ok settings ↔ TakesSettings members settings := by
  rw [Record.ofObject_eq_ok_iff lawful_settings.keys_nodup]
  constructor
  · rintro ⟨⟨source, limit, size, spaces, _⟩, ⟨hsource, hlimit, hsize, hspaces, -⟩, rfl⟩
    exact ⟨hsource, hlimit, hsize, hspaces⟩
  · rintro ⟨hsource, hlimit, hsize, hspaces⟩
    exact ⟨settingsRecord.split settings, ⟨hsource, hlimit, hsize, hspaces, trivial⟩, rfl⟩

theorem toOption_eq_some_iff {ε α : Type} {result : Except ε α} {value : α} :
    result.toOption = some value ↔ result = .ok value := by
  cases result <;> simp [Except.toOption]

/-- Settings are read from the text of an object as from its members. -/
theorem settingsOfText_eq_ok_iff (h : SpellsText (.object members) text) :
    settingsOfText text = .ok settings ↔ TakesSettings members settings := by
  have hread : (settingsOfText text).toOption = (settingsRecord.ofObject members).toOption := by
    calc
      (settingsOfText text).toOption = (readAll Wire.settings.read text).toOption :=
        toOption_mapError _ _
      _ = (Wire.settings.ofJson (.object members)).toOption :=
        lawful_settings.agrees.toOption_readAll h
  rw [← ofObject_settings_iff, ← toOption_eq_some_iff, hread, toOption_eq_some_iff]

end Settings

/-- The text of an object gives settings if and only if its members admit them, whatever other
members there are, and the settings are then the given ones, with defaults for the rest. The numbers
that are admitted are spelled by their digits alone. -/
theorem settings_follow_members {members : List (String × Json)} {text : String}
    (h : SpellsText (.object members) text) :
    ((∃ settings, settingsOfText text = .ok settings) ↔ AdmitsSettings members) ∧
      (∀ settings, settingsOfText text = .ok settings → FollowsSettings members settings) ∧
      ∀ n here, Spells (ofNat n) here ↔ n ≤ maxDigits ∧ WritesWhole n here := by
  refine ⟨?_, fun settings hsettings ↦ ?_, fun n here ↦ spells_ofNat_iff⟩
  · simp only [settingsOfText_eq_ok_iff h]
    exact exists_takesSettings_iff
  · exact ((settingsOfText_eq_ok_iff h).mp hsettings).follows

/-- Members with the key of a setting inside the value of another key. -/
def nestedMembers : List (String × Json) :=
  [("tabSize", ofNat 0xFFFFFFFF), ("x", .array [.object [("tabSize", .null)]]),
    ("insertSpaces", .bool false)]

def nestedText : String :=
  "\x7b\"tabSize\":4294967295,\"x\":[\x7b\"tabSize\":null\x7d],\"insertSpaces\":false\x7d"

theorem settings_follow_members_of_nested : SpellsText (.object nestedMembers) nestedText ∧
    ∃ settings, settingsOfText nestedText = .ok settings ∧ settings.tabSize = 0xFFFFFFFF ∧
      settings.maxProblems = Settings.standard.maxProblems := by
  have hwritten : (Json.object nestedMembers).compact = nestedText := by decide +kernel
  have hplain : Plain (.object nestedMembers) :=
    ⟨⟨0xFFFFFFFF, by decide, rfl⟩, ⟨⟨trivial, trivial⟩, trivial⟩, trivial, trivial⟩
  have htext : SpellsText (.object nestedMembers) nestedText :=
    hwritten ▸ spellsText_compact hplain
  obtain ⟨hexists, hfollows, -⟩ := settings_follow_members htext
  have hadmits : AdmitsSettings nestedMembers := by
    unfold nestedMembers
    refine ⟨⟨by decide, by simp⟩, ⟨by decide, by simp⟩, ⟨by decide, ?_⟩, ⟨by decide, by simp⟩⟩
    intro json hjson
    exact ⟨0xFFFFFFFF, by simpa using hjson, Nat.le_refl _⟩
  obtain ⟨settings, hsettings⟩ := hexists.mpr hadmits
  have htabSize : ofNat 0xFFFFFFFF = ofNat settings.tabSize :=
    (hfollows settings hsettings).tabSize.given _ List.mem_cons_self
  have hmaxProblems : settings.maxProblems = Settings.standard.maxProblems :=
    (hfollows settings hsettings).maxProblems.missing (by decide)
  exact ⟨htext, settings, hsettings, ofNat_injective htabSize.symm, hmaxProblems⟩

end ScriptSense.Wire
