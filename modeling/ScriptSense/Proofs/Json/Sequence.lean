import ScriptSense.Proofs.Json.Grammar
import ScriptSense.Proofs.Json.Numeral

/-!
# Reading lists and objects

The punctuation between elements and members is the same whatever they mean. A reader that gives
each element its meaning therefore gives the list the meanings of its elements, and a reader of
members that carries a state along folds it over the object.
-/

namespace ScriptSense.Json

/-- The reader gives the meaning and leaves the rest, or fails where there is no meaning. -/
def Yields {α : Type} (result : Except Failure (α × List Char)) (meaning : Option α)
    (rest : List Char) : Prop :=
  result.toOption = meaning.map (·, rest)

theorem Yields.cases {α : Type} {result : Except Failure (α × List Char)} {meaning : Option α}
    {rest : List Char} (h : Yields result meaning rest) :
    (∃ failure, result = .error failure ∧ meaning = none) ∨
      ∃ value, result = .ok (value, rest) ∧ meaning = some value := by
  unfold Yields at h
  cases result with
  | error failure => exact .inl ⟨failure, rfl, Option.map_eq_none_iff.mp h.symm⟩
  | ok found =>
    obtain ⟨value, hvalue, rfl⟩ := Option.map_eq_some_iff.mp h.symm
    exact .inr ⟨value, rfl, hvalue⟩

theorem Yields.outcomes {α : Type} {result : Except Failure (α × List Char)}
    {meaning : Except Fault α} {rest : List Char} (h : Yields result meaning.toOption rest) :
    (∃ failure fault, result = .error failure ∧ meaning = .error fault) ∨
      ∃ value, result = .ok (value, rest) ∧ meaning = .ok value := by
  obtain ⟨failure, rfl, hmeaning⟩ | ⟨value, rfl, hmeaning⟩ := h.cases
  · cases meaning with
    | error fault => exact .inl ⟨failure, fault, rfl, rfl⟩
    | ok value => cases hmeaning
  · cases meaning with
    | error fault => cases hmeaning
    | ok found =>
      obtain rfl := Option.some.inj hmeaning
      exact .inr ⟨found, rfl, rfl⟩

theorem skipSpace_append {gap : List Char} (h : IsSpace gap) (rest : List Char) :
    skipSpace (gap ++ rest) = skipSpace rest :=
  List.dropWhile_append_of_pos h

theorem skipSpace_eq_nil {gap : List Char} (h : IsSpace gap) : skipSpace gap = [] :=
  List.dropWhile_eq_nil_iff.mpr h

theorem skipSpace_cons {c : Char} (h : isSpace c = false) (rest : List Char) :
    skipSpace (c :: rest) = c :: rest :=
  List.dropWhile_cons_of_neg (by simp [h])

theorem isSpace_nil : IsSpace [] := by
  simp [IsSpace]

theorem IsSpace.append {gap other : List Char} (h : IsSpace gap) (hother : IsSpace other) :
    IsSpace (gap ++ other) := by
  intro c hc
  rcases List.mem_append.mp hc with hc | hc
  · exact h c hc
  · exact hother c hc

/-- Space does not go on with a number, and is no digit in particular. -/
theorem ne_continuation_of_isSpace {c : Char} (h : isSpace c) :
    c.isDigit = false ∧ c ≠ '.' ∧ c ≠ 'e' ∧ c ≠ 'E' := by
  simp only [isSpace, Bool.or_eq_true, beq_iff_eq] at h
  rcases h with ((rfl | rfl) | rfl) | rfl <;> decide

theorem stops_nil : Stops [] := by
  simp [Stops]

theorem stops_cons {c : Char} (h : c.isDigit = false ∧ c ≠ '.' ∧ c ≠ 'e' ∧ c ≠ 'E')
    (rest : List Char) : Stops (c :: rest) := by
  intro d hd
  obtain rfl : c = d := by simpa using hd
  exact h

theorem IsSpace.stops {gap : List Char} (h : IsSpace gap) {rest : List Char} (hrest : Stops rest) :
    Stops (gap ++ rest) := by
  cases gap with
  | nil => exact hrest
  | cons c more => exact stops_cons (ne_continuation_of_isSpace (h c List.mem_cons_self)) _

/-- The characters that a spelling of the value may start with. -/
def Opens (value : Json) (c : Char) : Prop :=
  match value with
  | .null => c = 'n'
  | .bool value => c = if value then 't' else 'f'
  | .number _ => c = '-' ∨ c.isDigit
  | .string _ => c = '"'
  | .array _ => c = '['
  | .object _ => c = '\x7b'

theorem Spells.exists_cons {value : Json} {text : List Char} (h : Spells value text) :
    ∃ c rest, text = c :: rest ∧ Opens value c := by
  cases value with
  | null =>
    rw [Spells] at h
    exact ⟨_, _, h, rfl⟩
  | bool value =>
    rw [Spells] at h
    cases value <;> exact ⟨_, _, h, rfl⟩
  | number value =>
    rw [Spells] at h
    obtain ⟨numeral, -, rfl⟩ := h
    exact numeral.exists_cons
  | string value =>
    rw [Spells] at h
    obtain ⟨body, -, rfl⟩ := h
    exact ⟨_, _, rfl, rfl⟩
  | array items =>
    rw [Spells] at h
    obtain ⟨body, -, rfl⟩ := h
    exact ⟨_, _, rfl, rfl⟩
  | object members =>
    rw [Spells] at h
    obtain ⟨body, -, rfl⟩ := h
    exact ⟨_, _, rfl, rfl⟩

/-- No value starts with space or with a mark of punctuation. -/
theorem Opens.ne_punctuation {value : Json} {c : Char} (h : Opens value c) :
    isSpace c = false ∧ c ≠ ']' ∧ c ≠ ',' := by
  have hdigit (hc : c.isDigit) : isSpace c = false ∧ c ≠ ']' ∧ c ≠ ',' := by
    refine ⟨?_, ?_, ?_⟩
    · by_contra hspace
      simp [(ne_continuation_of_isSpace (by simpa using hspace)).1] at hc
    · rintro rfl
      simp at hc
    · rintro rfl
      simp at hc
  unfold Opens at h
  split at h
  · rw [h]; decide
  · split at h <;> rw [h] <;> decide
  · rcases h with rfl | h
    · decide
    · exact hdigit h
  all_goals rw [h]; decide

/-- What kind of value the first character of its spelling tells. -/
structure Tells (c : Char) (value : Json) : Prop where
  null_iff : c = 'n' ↔ value = .null
  true_iff : c = 't' ↔ value = .bool true
  false_iff : c = 'f' ↔ value = .bool false
  string_iff : c = '"' ↔ ∃ text, value = .string text
  array_iff : c = '[' ↔ ∃ items, value = .array items
  object_iff : c = '\x7b' ↔ ∃ members, value = .object members
  number_iff : (c = '-' || c.isDigit) = true ↔ ∃ number, value = .number number

theorem Opens.tells {value : Json} {c : Char} (h : Opens value c) : Tells c value := by
  cases value with
  | number value =>
    have hne (d : Char) (hd : (d = '-' || d.isDigit) = false) : c ≠ d := by
      rintro rfl
      simp_all [Opens]
    constructor <;> simp_all [Opens]
  | bool value => cases value <;> constructor <;> simp_all [Opens, Char.isDigit]
  | _ => constructor <;> simp_all [Opens, Char.isDigit]

theorem Spells.readAs {number : Number} {here rest : List Char} (h : Spells (.number number) here)
    (hrest : Stops rest) : ReadAs number rest (readNumber (here ++ rest)) := by
  rw [Spells] at h
  obtain ⟨numeral, rfl, rfl⟩ := h
  exact numeral.readAs_readNumber hrest

theorem Spells.string_tail {text : String} {c : Char} {more : List Char}
    (h : Spells (.string text) (c :: more)) :
    ∃ body, SpellsChars text.toList body ∧ more = body ++ ['"'] := by
  rw [Spells] at h
  obtain ⟨body, hbody, hwritten⟩ := h
  exact ⟨body, hbody, (List.cons.inj hwritten).2⟩

theorem Spells.array_tail {items : List Json} {c : Char} {more : List Char}
    (h : Spells (.array items) (c :: more)) :
    ∃ body, SpellsItems true items body ∧ more = body ++ [']'] := by
  rw [Spells] at h
  obtain ⟨body, hbody, hwritten⟩ := h
  exact ⟨body, hbody, (List.cons.inj hwritten).2⟩

theorem Spells.object_tail {members : List (String × Json)} {c : Char} {more : List Char}
    (h : Spells (.object members) (c :: more)) :
    ∃ body, SpellsMembers true members body ∧ more = body ++ ['\x7d'] := by
  rw [Spells] at h
  obtain ⟨body, hbody, hwritten⟩ := h
  exact ⟨body, hbody, (List.cons.inj hwritten).2⟩

theorem isGap_of_isSpace {gap : List Char} (h : IsSpace gap) : IsGap true gap :=
  ⟨gap, [], h, isSpace_nil, by simp⟩

theorem isGap_comma {before gap : List Char} (hbefore : IsSpace before) (hgap : IsSpace gap) :
    IsGap false (before ++ ',' :: gap) :=
  ⟨before, gap, hbefore, hgap, by simp⟩

theorem IsGap.isSpace {gap : List Char} (h : IsGap true gap) : IsSpace gap := by
  obtain ⟨before, after, hbefore, hafter, rfl⟩ := h
  simpa using hbefore.append hafter

/-- Before a later element or member, the first thing that is not space is a comma. -/
theorem IsGap.skipSpace {gap : List Char} (h : IsGap false gap) (rest : List Char) :
    ∃ after, skipSpace (gap ++ rest) = ',' :: (after ++ rest) ∧ IsSpace after := by
  obtain ⟨before, after, hbefore, hafter, rfl⟩ := h
  have hcomma := skipSpace_cons (c := ',') (by decide) (after ++ rest)
  exact ⟨after, by simp [skipSpace_append hbefore, hcomma], hafter⟩

theorem IsGap.stops {gap : List Char} (h : IsGap false gap) (rest : List Char) :
    Stops (gap ++ rest) := by
  obtain ⟨before, after, hbefore, -, rfl⟩ := h
  have hcomma : Stops (',' :: (after ++ rest)) := stops_cons (by decide) _
  simpa using hbefore.stops hcomma

theorem nextElement_gap {first : Bool} {gap : List Char} (h : IsGap first gap) {c : Char}
    (hc : isSpace c = false ∧ c ≠ ']' ∧ c ≠ ',') (rest : List Char) :
    nextElement first (gap ++ c :: rest) = .ok (true, c :: rest) := by
  obtain ⟨before, after, hbefore, hafter, rfl⟩ := h
  have hstart := skipSpace_cons hc.1 rest
  cases first with
  | true =>
    simp [nextElement, skipSpace_append hbefore, skipSpace_append hafter, hstart, hc.2.1]
  | false =>
    have hcomma := skipSpace_cons (c := ',') (by decide) (after ++ c :: rest)
    simp [nextElement, skipSpace_append hbefore, skipSpace_append hafter, hcomma, hstart, hc.2.1]

theorem nextElement_spells {first : Bool} {gap : List Char} (hgap : IsGap first gap) {item : Json}
    {here : List Char} (hhere : Spells item here) (rest : List Char) :
    nextElement first (gap ++ (here ++ rest)) = .ok (true, here ++ rest) := by
  obtain ⟨c, more, rfl, hc⟩ := hhere.exists_cons
  exact nextElement_gap hgap hc.ne_punctuation (more ++ rest)

theorem nextElement_closing (first : Bool) {gap : List Char} (h : IsSpace gap)
    (rest : List Char) : nextElement first (gap ++ ']' :: rest) = .ok (false, ']' :: rest) := by
  have hstart := skipSpace_cons (c := ']') (by decide) rest
  simp [nextElement, skipSpace_append h, hstart]

theorem nextKey_gap {first : Bool} {gap : List Char} (h : IsGap first gap) (rest : List Char) :
    nextKey first (gap ++ '"' :: rest) = .ok (true, '"' :: rest) := by
  obtain ⟨before, after, hbefore, hafter, rfl⟩ := h
  have hstart := skipSpace_cons (c := '"') (by decide) rest
  cases first with
  | true => simp [nextKey, skipSpace_append hbefore, skipSpace_append hafter, hstart]
  | false =>
    have hcomma := skipSpace_cons (c := ',') (by decide) (after ++ '"' :: rest)
    simp [nextKey, skipSpace_append hbefore, skipSpace_append hafter, hcomma, hstart]

theorem nextKey_closing (first : Bool) {gap : List Char} (h : IsSpace gap) (rest : List Char) :
    nextKey first (gap ++ '\x7d' :: rest) = .ok (false, '\x7d' :: rest) := by
  have hstart := skipSpace_cons (c := '\x7d') (by decide) rest
  simp [nextKey, skipSpace_append h, hstart]

/-- After a colon, only space is left before the value. -/
theorem readColon_append {colon : List Char} (h : IsColon colon) :
    ∃ gap, IsSpace gap ∧ ∀ rest, readColon (colon ++ rest) = .ok (gap ++ rest) := by
  obtain ⟨before, after, hbefore, hafter, rfl⟩ := h
  refine ⟨after, hafter, fun rest ↦ ?_⟩
  have hcolon := skipSpace_cons (c := ':') (by decide) (after ++ rest)
  simp [readColon, skipSpace_append hbefore, hcolon]

/-! ## Lists -/

theorem SpellsItems.stops {items : List Json} {written : List Char}
    (h : SpellsItems false items written) (rest : List Char) : Stops (written ++ ']' :: rest) := by
  cases items with
  | nil =>
    rw [SpellsItems] at h
    exact h.stops (stops_cons (by decide) rest)
  | cons item others =>
    rw [SpellsItems] at h
    obtain ⟨gap, here, after, hgap, -, -, rfl⟩ := h
    simpa using hgap.stops (here ++ (after ++ ']' :: rest))

theorem SpellsMembers.stops {members : List (String × Json)} {written : List Char}
    (h : SpellsMembers false members written) (rest : List Char) :
    Stops (written ++ '\x7d' :: rest) := by
  cases members with
  | nil =>
    rw [SpellsMembers] at h
    exact h.stops (stops_cons (by decide) rest)
  | cons member others =>
    rw [SpellsMembers] at h
    obtain ⟨gap, name, colon, here, after, hgap, -, -, -, -, rfl⟩ := h
    simpa using hgap.stops (name ++ (colon ++ (here ++ (after ++ '\x7d' :: rest))))

theorem SpellsItems.length_le {first : Bool} {items : List Json} {written : List Char}
    (h : SpellsItems first items written) : items.length ≤ written.length := by
  induction items generalizing first written with
  | nil => exact Nat.zero_le _
  | cons item others ih =>
    rw [SpellsItems] at h
    obtain ⟨gap, here, after, -, hhere, hafter, rfl⟩ := h
    obtain ⟨c, more, rfl, -⟩ := hhere.exists_cons
    have hle := ih hafter
    simp only [List.length_append, List.length_cons]
    omega

theorem SpellsMembers.length_le {first : Bool} {members : List (String × Json)}
    {written : List Char} (h : SpellsMembers first members written) :
    members.length ≤ written.length := by
  induction members generalizing first written with
  | nil => exact Nat.zero_le _
  | cons member others ih =>
    rw [SpellsMembers] at h
    obtain ⟨gap, name, colon, here, after, -, ⟨body, -, rfl⟩, -, -, hafter, rfl⟩ := h
    have hle := ih hafter
    simp only [List.length_append, List.length_cons]
    omega

/-- A list is read as the meanings of its elements when each element is read as its meaning. -/
theorem yields_readElements {α : Type} {element : Reader α} {meaning : Json → Option α}
    (helement : ∀ item here rest, Spells item here → Stops rest →
      Yields (element (here ++ rest)) (meaning item) rest)
    {first : Bool} {items : List Json} {written : List Char}
    (h : SpellsItems first items written) (rest : List Char) {steps : Nat}
    (hsteps : items.length < steps) :
    Yields (readElements element steps first (written ++ ']' :: rest)) (items.mapM meaning)
      rest := by
  induction items generalizing first written steps with
  | nil =>
    obtain ⟨steps, rfl⟩ := Nat.exists_eq_succ_of_ne_zero (Nat.ne_zero_of_lt hsteps)
    rw [SpellsItems] at h
    rw [readElements, nextElement_closing first h]
    rfl
  | cons item others ih =>
    obtain ⟨steps, rfl⟩ := Nat.exists_eq_succ_of_ne_zero (Nat.ne_zero_of_lt hsteps)
    rw [SpellsItems] at h
    obtain ⟨gap, here, after, hgap, hhere, hafter, rfl⟩ := h
    simp only [List.append_assoc, readElements, nextElement_spells hgap hhere, List.mapM_cons]
    obtain ⟨failure, hread, hnone⟩ | ⟨value, hread, hvalue⟩ :=
      (helement item here (after ++ ']' :: rest) hhere (hafter.stops rest)).cases
    · simp only [hread, hnone]
      rfl
    · simp only [hread, hvalue]
      obtain ⟨failure, hothers, hnone⟩ | ⟨values, hothers, hvalues⟩ :=
        (ih hafter (Nat.lt_of_succ_lt_succ hsteps)).cases
      · simp only [hothers, hnone]
        rfl
      · simp only [hothers, hvalues]
        rfl

/-! ## Objects -/

/-- An object is read by folding its members into a state when each member is read as its part of
the fold. -/
theorem yields_readMembers {σ : Type} {member : σ → String → Reader σ}
    {meaning : σ → String × Json → Option σ}
    (hmember : ∀ state key value colon here rest, IsColon colon → Spells value here → Stops rest →
      Yields (member state key (colon ++ (here ++ rest))) (meaning state (key, value)) rest)
    {first : Bool} {members : List (String × Json)} {written : List Char}
    (h : SpellsMembers first members written) (state : σ) (rest : List Char) {steps : Nat}
    (hsteps : members.length < steps) :
    Yields (readMembers member steps first state (written ++ '\x7d' :: rest))
      (members.foldlM meaning state) ('\x7d' :: rest) := by
  induction members generalizing first written steps state with
  | nil =>
    obtain ⟨steps, rfl⟩ := Nat.exists_eq_succ_of_ne_zero (Nat.ne_zero_of_lt hsteps)
    rw [SpellsMembers] at h
    rw [readMembers, nextKey_closing first h]
    rfl
  | cons member others ih =>
    obtain ⟨steps, rfl⟩ := Nat.exists_eq_succ_of_ne_zero (Nat.ne_zero_of_lt hsteps)
    obtain ⟨key, value⟩ := member
    rw [SpellsMembers] at h
    obtain ⟨gap, name, colon, here, after, hgap, hname, hcolon, hhere, hafter, rfl⟩ := h
    obtain ⟨body, hbody, rfl⟩ := hname
    simp only [List.append_assoc, List.cons_append, List.nil_append, readMembers,
      nextKey_gap hgap, List.tail_cons, readString_append hbody, List.foldlM_cons]
    obtain ⟨failure, hread, hnone⟩ | ⟨next, hread, hnext⟩ :=
      (hmember state key value colon here (after ++ '\x7d' :: rest) hcolon hhere
        (hafter.stops rest)).cases
    · simp only [hread, hnone]
      rfl
    · simp only [hread, hnext]
      exact ih hafter next (Nat.lt_of_succ_lt_succ hsteps)

end ScriptSense.Json
