import Mathlib.Data.List.Pairwise
import Mathlib.Data.List.Perm.Basic

/-!
# Intervals read from left to right

Words, literals and blocks are read from left to right, and each of them takes up an interval that
no other one meets. Two such readings are the same if wherever an interval of one starts there is
one of the other, and the place where an interval starts tells where it stops.
-/

namespace ScriptSense.Text

/-- The intervals from `start` up to, but not including, `stop` stand in order and apart from each
other, and none of them is empty. -/
structure AreApart {α : Type} (start stop : α → Nat) (xs : List α) : Prop where
  nonempty : ∀ x ∈ xs, start x < stop x
  ordered : xs.Pairwise fun a b ↦ stop a ≤ start b

/-- Every interval of the first list starts in one of the second. -/
def StartIn {α : Type} (start stop : α → Nat) (xs ys : List α) : Prop :=
  ∀ x ∈ xs, ∃ y ∈ ys, start y ≤ start x ∧ start x < stop y

namespace AreApart

variable {α : Type} {start stop : α → Nat} {xs ys : List α} {a b x : α} {place : Nat}

/-- Of two intervals, one stops before the other starts. -/
theorem stop_le_or (h : AreApart start stop xs) (ha : a ∈ xs) (hb : b ∈ xs) (hne : a ≠ b) :
    stop a ≤ start b ∨ stop b ≤ start a := by
  have hsymm : Std.Symm fun a b ↦ stop a ≤ start b ∨ stop b ≤ start a := ⟨fun _ _ ↦ Or.symm⟩
  have hpairwise : xs.Pairwise fun a b ↦ stop a ≤ start b ∨ stop b ≤ start a := h.ordered.imp .inl
  exact hpairwise.forall ha hb hne

theorem eq_of_common (h : AreApart start stop xs) (ha : a ∈ xs) (hb : b ∈ xs)
    (haplace : start a ≤ place ∧ place < stop a) (hbplace : start b ≤ place ∧ place < stop b) :
    a = b := by
  by_contra hne
  rcases h.stop_le_or ha hb hne with hle | hle <;> omega

theorem start_lt (h : AreApart start stop xs) : xs.Pairwise fun a b ↦ start a < start b := by
  apply h.ordered.imp_of_mem
  intro a b ha _ hle
  exact Nat.lt_of_lt_of_le (h.nonempty a ha) hle

theorem nodup (h : AreApart start stop xs) : xs.Nodup := by
  apply h.start_lt.imp
  rintro a b hlt rfl
  exact Nat.lt_irrefl _ hlt

/-- By induction on where an interval starts, for both lists at once: were the interval of the other
list that is found there to start earlier, it would be in both lists and meet this one. -/
theorem mem_of_startIn (h : AreApart start stop xs) (hother : AreApart start stop ys)
    (hxs : StartIn start stop xs ys) (hys : StartIn start stop ys xs)
    (hstops : ∀ x ∈ xs, ∀ y ∈ ys, start x = start y → x = y) (hx : x ∈ xs) : x ∈ ys := by
  induction hstart : start x using Nat.strongRecOn generalizing xs ys x with
  | ind place ih =>
    obtain ⟨y, hy, hle, hlt⟩ := hxs x hx
    rcases Nat.lt_or_eq_of_le hle with hearlier | hsame
    · have hcommon : y ∈ xs := ih (start y) (hstart ▸ hearlier) hother h hys hxs
        (fun b hb a ha heq ↦ (hstops a ha b hb heq.symm).symm) hy rfl
      rwa [h.eq_of_common hx hcommon ⟨Nat.le_refl _, h.nonempty x hx⟩ ⟨hle, hlt⟩]
    · rwa [hstops x hx y hy hsame.symm]

theorem eq_of_startIn (h : AreApart start stop xs) (hother : AreApart start stop ys)
    (hxs : StartIn start stop xs ys) (hys : StartIn start stop ys xs)
    (hstops : ∀ x ∈ xs, ∀ y ∈ ys, start x = start y → x = y) : xs = ys := by
  have hback : ∀ y ∈ ys, ∀ x ∈ xs, start y = start x → y = x :=
    fun y hy x hx heq ↦ (hstops x hx y hy heq.symm).symm
  have hperm : xs.Perm ys := by
    rw [List.perm_ext_iff_of_nodup h.nodup hother.nodup]
    intro x
    exact ⟨h.mem_of_startIn hother hxs hys hstops, hother.mem_of_startIn h hys hxs hback⟩
  apply hperm.eq_of_pairwise _ h.start_lt hother.start_lt
  intro a b _ _ hab hba
  exact absurd hab (Nat.lt_asymm hba)

end AreApart

end ScriptSense.Text
