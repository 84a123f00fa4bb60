import ScriptSense.Text.Line

/-!
# Open documents

The text of every open document under its URI. A document is listed once, and the listing is in the
order of the URIs, compared by code point, which is also the order of their UTF-8 bytes.
-/

namespace ScriptSense

/-- The URIs and texts of the open documents, in the order of the URIs. -/
structure Documents where
  entries : List (String × String)
  ordered : entries.Pairwise fun a b ↦ a.1 < b.1

namespace Documents

def empty : Documents := ⟨[], .nil⟩

instance : Inhabited Documents := ⟨empty⟩

def putInto (uri text : String) : List (String × String) → List (String × String)
  | [] => [(uri, text)]
  | entry :: rest =>
    if uri < entry.1 then (uri, text) :: entry :: rest
    else if uri = entry.1 then (uri, text) :: rest
    else entry :: putInto uri text rest

theorem mem_putInto {uri text : String} {entries : List (String × String)} {entry}
    (h : entry ∈ putInto uri text entries) : entry = (uri, text) ∨ entry ∈ entries := by
  induction entries with
  | nil => exact .inl (by simpa [putInto] using h)
  | cons first rest ih =>
    unfold putInto at h
    split at h
    · simpa using h
    · split at h
      · rcases List.mem_cons.mp h with h | h
        · exact .inl h
        · exact .inr (List.mem_cons_of_mem _ h)
      · rcases List.mem_cons.mp h with h | h
        · exact .inr (h ▸ List.mem_cons_self)
        · exact (ih h).imp id (List.mem_cons_of_mem _)

theorem pairwise_putInto (uri text : String) {entries : List (String × String)}
    (h : entries.Pairwise fun a b ↦ a.1 < b.1) :
    (putInto uri text entries).Pairwise fun a b ↦ a.1 < b.1 := by
  induction entries with
  | nil => simp [putInto]
  | cons first rest ih =>
    obtain ⟨hfirst, hrest⟩ := List.pairwise_cons.mp h
    unfold putInto
    split
    · rename_i hlt
      refine List.pairwise_cons.mpr ⟨fun entry hentry ↦ ?_, h⟩
      rcases List.mem_cons.mp hentry with rfl | hentry
      · exact hlt
      · exact String.lt_trans hlt (hfirst entry hentry)
    · split
      · rename_i heq
        exact List.pairwise_cons.mpr ⟨fun entry hentry ↦ heq ▸ hfirst entry hentry, hrest⟩
      · rename_i hlt heq
        refine List.pairwise_cons.mpr ⟨fun entry hentry ↦ ?_, ih hrest⟩
        rcases mem_putInto hentry with rfl | hentry
        · exact Decidable.byContradiction fun hnot ↦
            heq (String.le_antisymm (String.not_lt.mp hnot) (String.not_lt.mp hlt))
        · exact hfirst entry hentry

/-- Keeps `text` as the text of `uri`, in place of the one it had. -/
def put (documents : Documents) (uri text : String) : Documents :=
  ⟨putInto uri text documents.entries, pairwise_putInto uri text documents.ordered⟩

/-- Forgets `uri`. -/
def erase (documents : Documents) (uri : String) : Documents :=
  ⟨documents.entries.filter (·.1 != uri), documents.ordered.filter _⟩

def get? (documents : Documents) (uri : String) : Option String :=
  (documents.entries.find? (·.1 == uri)).map Prod.snd

def contains (documents : Documents) (uri : String) : Bool :=
  (documents.get? uri).isSome

/-- A line of an open document, if the document has it. -/
def line? (documents : Documents) (uri : String) (number : Nat) : Option (List Char) :=
  (documents.get? uri).bind fun text ↦ (Text.lines text)[number]?

def size (documents : Documents) : Nat :=
  documents.entries.length

def isEmpty (documents : Documents) : Bool :=
  documents.entries.isEmpty

end Documents

end ScriptSense
