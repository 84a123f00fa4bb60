import ScriptSense.Wire.Codec

/-!
# Records

A record is written as an object with a member for each field. It is read from an object whose
members may stand in any order, among others that are skipped, or from the list of its fields in
their order. A field that is missing takes its default, if it has one; one that is given twice is a
fault.
-/

namespace ScriptSense.Wire

open Json

/-- A field of a record. An object may leave it out if `absent` holds a value for it, and a list may
end before it if `beyond` does. -/
structure Field (α : Type) where
  key : String
  codec : Codec α
  absent : Option α
  beyond : Option α

inductive Fields : List Type → Type 1
  | nil : Fields []
  | cons {α : Type} {types : List Type} (field : Field α) (rest : Fields types) :
    Fields (α :: types)

/-- A value for each field. -/
def Values : List Type → Type
  | [] => Unit
  | α :: types => α × Values types

/-- The fields read so far. -/
def Slots : List Type → Type
  | [] => Unit
  | α :: types => Option α × Slots types

namespace Field

def required {α : Type} (key : String) (codec : Codec α) : Field α :=
  ⟨key, codec, none, none⟩

/-- A field that an object may leave out or give as null. -/
def optional {α : Type} (key : String) (codec : Codec α) : Field (Option α) :=
  ⟨key, codec.optional, some none, none⟩

def withDefault {α : Type} (key : String) (codec : Codec α) (value : α) : Field α :=
  ⟨key, codec, some value, some value⟩

end Field

namespace Fields

def count : {types : List Type} → Fields types → Nat
  | _, .nil => 0
  | _, .cons _ rest => rest.count + 1

def emptySlots : {types : List Type} → Fields types → Slots types
  | _, .nil => ()
  | _, .cons _ rest => (none, rest.emptySlots)

/-- A fault of an object takes the place after its closing brace, if that comes next. -/
def afterClosing (close : Char) (input : List Char) : List Char :=
  match skipSpace input with
  | [] => []
  | c :: rest => if c = close then rest else c :: rest

/-- Reads what follows a key: the value of the field with that key, or a value to be skipped. -/
def readMember : {types : List Type} → Fields types → Slots types → String →
    Reader (Slots types)
  | _, .nil, (), _, input =>
    match readColon input with
    | .error failure => .error failure
    | .ok rest => (skipValue rest).map ((), ·)
  | _, .cons field fields, (slot, slots), key, input =>
    if field.key = key then
      match slot with
      | some _ => failAt (.duplicateField key) (afterClosing '\x7d' input)
      | none =>
        match readColon input with
        | .error failure => .error failure
        | .ok rest =>
          match field.codec.read rest with
          | .error failure => .error failure
          | .ok (value, rest) => .ok ((some value, slots), rest)
    else
      match fields.readMember slots key input with
      | .error failure => .error failure
      | .ok (slots, rest) => .ok ((slot, slots), rest)

/-- Takes a member of a JSON object into its slot. -/
def takeMember : {types : List Type} → Fields types → Slots types → String × Json →
    Except Fault (Slots types)
  | _, .nil, (), _ => .ok ()
  | _, .cons field fields, (slot, slots), member =>
    if field.key = member.1 then
      match slot with
      | some _ => .error (.duplicateField member.1)
      | none =>
        match field.codec.ofJson member.2 with
        | .error fault => .error fault
        | .ok value => .ok (some value, slots)
    else
      match fields.takeMember slots member with
      | .error fault => .error fault
      | .ok slots => .ok (slot, slots)

/-- The values in the slots, with the defaults of those that are empty. -/
def fill : {types : List Type} → Fields types → Slots types → Except Fault (Values types)
  | _, .nil, () => .ok ()
  | _, .cons field fields, (slot, slots) =>
    match slot.or field.absent with
    | none => .error (.missingField field.key)
    | some value =>
      match fields.fill slots with
      | .error fault => .error fault
      | .ok values => .ok (value, values)

/-- The elements that a list has to have, for a record of `total` fields. -/
def expectedLength (name : String) (total : Nat) : String :=
  name ++ " with " ++ Nat.repr total ++ " elements"

/-- Reads the fields from the elements of a list, of which `index` are read. -/
def readElements (name : String) (total : Nat) : {types : List Type} → Fields types → Nat →
    Reader (Values types)
  | _, .nil, _, input => .ok ((), input)
  | _, .cons field fields, index, input =>
    match nextElement (index == 0) input with
    | .error failure => .error failure
    | .ok (false, input) =>
      match field.beyond with
      | none => failAt (.invalidLength index (expectedLength name total)) (afterClosing ']' input)
      | some value =>
        match fields.readElements name total index input with
        | .error failure => .error failure
        | .ok (values, rest) => .ok ((value, values), rest)
    | .ok (true, input) =>
      match field.codec.read input with
      | .error failure => .error failure
      | .ok (value, rest) =>
        match fields.readElements name total (index + 1) rest with
        | .error failure => .error failure
        | .ok (values, rest) => .ok ((value, values), rest)

/-- Takes the fields from the items of a JSON array, of which `index` are taken; the second result
is what is left of the items. -/
def takeItems (name : String) (total : Nat) : {types : List Type} → Fields types → Nat →
    List Json → Except Fault (Values types × List Json)
  | _, .nil, _, items => .ok ((), items)
  | _, .cons field fields, index, [] =>
    match field.beyond with
    | none => .error (.invalidLength index (expectedLength name total))
    | some value => (fields.takeItems name total index []).map fun (values, items) ↦
        ((value, values), items)
  | _, .cons field fields, index, item :: items =>
    match field.codec.ofJson item with
    | .error fault => .error fault
    | .ok value => (fields.takeItems name total (index + 1) items).map fun (values, items) ↦
        ((value, values), items)

def toMembers : {types : List Type} → Fields types → Values types → List (String × Json)
  | _, .nil, () => []
  | _, .cons field fields, (value, values) =>
    (field.key, field.codec.toJson value) :: fields.toMembers values

end Fields

/-- The fields of a type, its name in messages, and the way from its values to theirs and back. -/
structure Record (ρ : Type) where
  name : String
  types : List Type
  fields : Fields types
  make : Values types → ρ
  split : ρ → Values types

namespace Record

variable {ρ : Type}

/-- Reads the members of an object and its closing brace. -/
def readObject (record : Record ρ) : Reader ρ := fun input ↦
  match readMembers record.fields.readMember (input.length + 1) true record.fields.emptySlots
      input with
  | .error failure => .error failure
  | .ok (slots, input) => liftAt ((record.fields.fill slots).map record.make) input.tail

/-- Reads the elements of a list and its closing bracket. -/
def readList (record : Record ρ) : Reader ρ := fun input ↦
  match record.fields.readElements record.name record.fields.count 0 input with
  | .error failure => .error failure
  | .ok (values, rest) =>
    match endSequence rest with
    | .error failure => .error failure
    | .ok rest => .ok (record.make values, rest)

def ofObject (record : Record ρ) (members : List (String × Json)) : Except Fault ρ :=
  match members.foldlM record.fields.takeMember record.fields.emptySlots with
  | .error fault => .error fault
  | .ok slots => (record.fields.fill slots).map record.make

def ofList (record : Record ρ) (items : List Json) : Except Fault ρ :=
  match record.fields.takeItems record.name record.fields.count 0 items with
  | .error fault => .error fault
  | .ok (values, []) => .ok (record.make values)
  | .ok (_, _ :: _) => .error (.invalidLength items.length "fewer elements in array")

def codec (record : Record ρ) : Codec ρ where
  read input :=
    match valueStart input with
    | .error failure => .error failure
    | .ok (c, rest) =>
      if c = '[' then record.readList rest
      else if c = '\x7b' then record.readObject rest
      else wrongType record.name c rest
  ofJson
    | .array items => record.ofList items
    | .object members => record.ofObject members
    | value => .error (.invalidType value.found record.name)
  toJson value := .object (record.fields.toMembers (record.split value))

end Record

end ScriptSense.Wire
