import Mathlib.Logic.Basic
import Mathlib.Tactic.Common

/-!
# Library/LongestPrefix — the longest prefix with a property

What a greedy loop takes from a list: it goes on while the property holds.  For a property that
prefixes inherit, **there is one such prefix** (`LongestPrefix.unique`), and it does not depend on
what comes after the first element that is left out (`LongestPrefix.append`).
-/

variable {α : Type} {P : List α → Prop} {l taken : List α}

/-- Prefixes inherit the property. -/
def PrefixClosed (P : List α → Prop) : Prop := ∀ l l', P (l ++ l') → P l

/-- `taken` starts `l` and has the property, which it loses with the next element of `l`. -/
structure LongestPrefix (P : List α → Prop) (l taken : List α) : Prop where
  isPrefix : taken <+: l
  holds : P taken
  stops : ∀ a, taken ++ [a] <+: l → ¬ P (taken ++ [a])

namespace LongestPrefix

theorem of_holds (h : P l) : LongestPrefix P l l where
  isPrefix := List.prefix_rfl
  holds := h
  stops a hprefix := by
    have hle := hprefix.length_le
    rw [List.length_append, List.length_singleton] at hle
    omega

/-- The next element is left out. -/
theorem of_next {next : α} (rest : List α) (h : P taken) (hnext : ¬ P (taken ++ [next])) :
    LongestPrefix P (taken ++ next :: rest) taken where
  isPrefix := List.prefix_append _ _
  holds := h
  stops a hprefix := by
    obtain ⟨rfl, -⟩ := List.cons_prefix_cons.mp ((List.prefix_append_right_inj _).mp hprefix)
    exact hnext

theorem eq_of_holds (h : LongestPrefix P l taken) (hclosed : PrefixClosed P) (hl : P l) :
    taken = l := by
  obtain ⟨rest, rfl⟩ := h.isPrefix
  cases rest with
  | nil => simp
  | cons next rest =>
    rw [List.append_cons] at hl
    exact absurd (hclosed _ _ hl) (h.stops next ⟨rest, by simp⟩)

/-- **The longest prefix is unique.** -/
theorem unique (hclosed : PrefixClosed P) {taken' : List α} (h : LongestPrefix P l taken)
    (h' : LongestPrefix P l taken') : taken = taken' := by
  rcases List.prefix_or_prefix_of_prefix h.isPrefix h'.isPrefix with hle | hle
  · refine eq_of_holds ⟨hle, h.holds, fun a ha => ?_⟩ hclosed h'.holds
    exact h.stops a (ha.trans h'.isPrefix)
  · refine (eq_of_holds ⟨hle, h'.holds, fun a ha => ?_⟩ hclosed h.holds).symm
    exact h'.stops a (ha.trans h.isPrefix)

/-- **What is left out does not matter.** -/
theorem append (h : LongestPrefix P l taken) (hne : taken ≠ l) (rest : List α) :
    LongestPrefix P (l ++ rest) taken := by
  obtain ⟨left, rfl⟩ := h.isPrefix
  cases left with
  | nil => simp at hne
  | cons next left =>
    rw [List.append_assoc, List.cons_append]
    exact of_next _ h.holds (h.stops next ⟨left, by simp⟩)

end LongestPrefix
