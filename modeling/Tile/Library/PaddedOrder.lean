import Mathlib.Algebra.Group.Nat.Defs
import Mathlib.Data.List.Basic
import Mathlib.Data.Nat.Basic
import Mathlib.Order.Monotone.Basic

/-!
# Library/PaddedOrder — texts that are ordered as the numbers in them

Words of one length compare from the first letter on which they differ, and what follows them counts
only when there is none (`append_lt_append_iff`).  **Numbers that are padded to one length compare
as their values** (`padded_lt_iff`).  A place-value number compares in the same way as a word,
whatever the sizes of its places (`add_lt_add_iff_of_monotone`).
-/

namespace Tile

/-! ## Words and places -/

/-- **Words of one length in front.** -/
theorem append_lt_append_iff {α : Type u} [LT α] {l l' r r' : List α} (h : l.length = l'.length) :
    l ++ r < l' ++ r' ↔ l < l' ∨ l = l' ∧ r < r' := by
  induction l generalizing l' with
  | nil =>
    obtain rfl := List.length_eq_zero_iff.mp h.symm
    simp
  | cons a l ih =>
    obtain ⟨b, l', rfl⟩ := List.exists_cons_of_length_eq_add_one h.symm
    rw [List.cons_append, List.cons_append, List.cons_lt_cons_iff, List.cons_lt_cons_iff,
      ih (Nat.succ_injective h), List.cons.injEq]
    grind

/-- **A place and what is below it**, which is less than the step to the next place. -/
theorem add_lt_add_iff_of_monotone {f : Nat → Nat} (hf : Monotone f) {i j x y : Nat}
    (hx : f i + x < f (i + 1)) (hy : f j + y < f (j + 1)) :
    f i + x < f j + y ↔ i < j ∨ i = j ∧ x < y := by
  rcases Nat.lt_trichotomy i j with hlt | rfl | hgt
  · have hle : f (i + 1) ≤ f j := hf hlt
    exact iff_of_true (by omega) (.inl hlt)
  · simp
  · have hle : f (j + 1) ≤ f i := hf hgt
    exact iff_of_false (by omega) (by omega)

theorem mul_add_lt_iff {base i j x y : Nat} (hx : x < base) (hy : y < base) :
    base * i + x < base * j + y ↔ i < j ∨ i = j ∧ x < y := by
  refine add_lt_add_iff_of_monotone (f := (base * ·))
    (fun _ _ h => Nat.mul_le_mul_left base h) ?_ ?_ <;> rw [Nat.mul_succ] <;> omega

/-! ## Padded numbers -/

/-- The number with zeros in front, up to the width. -/
def padded (width n : Nat) : List Char := (Nat.toDigits 10 n).leftpad width '0'

/-- What a text of digits stands for. -/
def numberOf (digits : List Char) : Nat := Nat.ofDigitChars 10 digits 0

section Digits

variable {width m n : Nat} {l l' : List Char}

theorem length_padded (hwidth : 0 < width) (hn : n < 10 ^ width) :
    (padded width n).length = width := by
  rw [padded, List.length_leftpad]
  exact Nat.max_eq_left ((Nat.length_toDigits_le_iff (by decide) hwidth).mpr hn)

theorem isDigit_of_mem_padded {c : Char} (h : c ∈ padded width n) : c.isDigit = true := by
  rcases List.mem_append.mp h with h | h
  · obtain rfl := List.eq_of_mem_replicate h
    decide
  · exact Nat.isDigit_of_mem_toDigits (by decide) (by decide) h

@[simp] theorem numberOf_padded (width n : Nat) : numberOf (padded width n) = n := by
  rw [numberOf, padded, List.leftpad, Nat.ofDigitChars_append, Nat.ofDigitChars_replicate_zero,
    Nat.mul_zero, Nat.ofDigitChars_ten_toDigits]

theorem numberOf_cons (c : Char) (l : List Char) :
    numberOf (c :: l) = 10 ^ l.length * (c.toNat - 48) + numberOf l := by
  rw [numberOf, Nat.ofDigitChars_cons, Nat.ofDigitChars_eq_ofDigitChars_zero, Nat.mul_zero,
    Nat.zero_add]
  rfl

theorem digit_bounds {c : Char} (h : c.isDigit = true) : 48 ≤ c.toNat ∧ c.toNat ≤ 57 := by
  simpa [Char.isDigit, UInt32.le_iff_toNat_le] using h

theorem numberOf_lt (h : ∀ c ∈ l, c.isDigit = true) : numberOf l < 10 ^ l.length := by
  induction l with
  | nil => decide
  | cons c l ih =>
    have hc := digit_bounds (h c List.mem_cons_self)
    have hl := ih fun d hd => h d (List.mem_cons_of_mem _ hd)
    rw [numberOf_cons, List.length_cons, Nat.pow_succ]
    have hle : 10 ^ l.length * (c.toNat - 48) ≤ 10 ^ l.length * 9 :=
      Nat.mul_le_mul_left _ (by omega)
    omega

/-- Digits of one length compare as the numbers they stand for. -/
theorem lt_iff_numberOf_lt (hlength : l.length = l'.length) (h : ∀ c ∈ l, c.isDigit = true)
    (h' : ∀ c ∈ l', c.isDigit = true) : l < l' ↔ numberOf l < numberOf l' := by
  induction l generalizing l' with
  | nil =>
    obtain rfl := List.length_eq_zero_iff.mp hlength.symm
    simp
  | cons c l ih =>
    obtain ⟨d, l', rfl⟩ := List.exists_cons_of_length_eq_add_one hlength.symm
    have hlength := Nat.succ_injective hlength
    have hc := digit_bounds (h c List.mem_cons_self)
    have hd := digit_bounds (h' d List.mem_cons_self)
    have hl : ∀ c ∈ l, c.isDigit = true := fun e he => h e (List.mem_cons_of_mem _ he)
    have hl' : ∀ c ∈ l', c.isDigit = true := fun e he => h' e (List.mem_cons_of_mem _ he)
    have hlt : c < d ↔ c.toNat - 48 < d.toNat - 48 := by
      rw [Char.lt_def, UInt32.lt_iff_toNat_lt]
      change c.toNat < d.toNat ↔ _
      omega
    have heq : c = d ↔ c.toNat - 48 = d.toNat - 48 := by
      rw [← Char.toNat_inj]
      omega
    rw [List.cons_lt_cons_iff, numberOf_cons, numberOf_cons, ← hlength,
      mul_add_lt_iff (numberOf_lt hl) (hlength ▸ numberOf_lt hl'), ih hlength hl hl', hlt, heq]

/-- **Padded numbers compare as their values.** -/
theorem padded_lt_iff (hwidth : 0 < width) (hm : m < 10 ^ width) (hn : n < 10 ^ width) :
    padded width m < padded width n ↔ m < n := by
  rw [lt_iff_numberOf_lt ((length_padded hwidth hm).trans (length_padded hwidth hn).symm)
    (fun _ => isDigit_of_mem_padded) (fun _ => isDigit_of_mem_padded), numberOf_padded,
    numberOf_padded]

theorem padded_inj : padded width m = padded width n ↔ m = n :=
  ⟨fun h => by rw [← numberOf_padded width m, h, numberOf_padded], fun h => by rw [h]⟩

/-- A padded number in front of other text. -/
theorem padded_append_lt_iff {r r' : List Char} (hwidth : 0 < width) (hm : m < 10 ^ width)
    (hn : n < 10 ^ width) :
    padded width m ++ r < padded width n ++ r' ↔ m < n ∨ m = n ∧ r < r' := by
  rw [append_lt_append_iff ((length_padded hwidth hm).trans (length_padded hwidth hn).symm),
    padded_lt_iff hwidth hm hn, padded_inj]

end Digits

end Tile
