import Mathlib.Algebra.Order.Floor.Ring
import Mathlib.Algebra.Ring.Int.Parity
import Mathlib.Algebra.Order.Field.Basic

/-!
# Library/Rounding — rounding half to even

The nearest integer, and the even one of two that are equally near.  It lies between the floor and
the ceiling, so **an integer bound of a number bounds what the number is rounded to**.
-/

namespace Tile

variable {K : Type*} [Field K] [LinearOrder K] [FloorRing K]

/-- The nearest integer, of two the even one. -/
def roundHalfEven (q : K) : ℤ :=
  if Int.fract q < 1 / 2 then ⌊q⌋
  else if 1 / 2 < Int.fract q then ⌊q⌋ + 1
  else if Even ⌊q⌋ then ⌊q⌋ else ⌊q⌋ + 1

theorem floor_le_roundHalfEven (q : K) : ⌊q⌋ ≤ roundHalfEven q := by
  rw [roundHalfEven]
  split_ifs <;> omega

/-- Rounding stays above an integer below. -/
theorem le_roundHalfEven {n : ℤ} {q : K} (h : (n : K) ≤ q) : n ≤ roundHalfEven q :=
  (Int.le_floor.mpr h).trans (floor_le_roundHalfEven q)

variable [IsStrictOrderedRing K]

theorem roundHalfEven_le_ceil (q : K) : roundHalfEven q ≤ ⌈q⌉ := by
  by_cases hfract : Int.fract q = 0
  · rw [roundHalfEven, hfract, if_pos (by positivity)]
    exact Int.floor_le_ceil q
  · have hlt : ⌊q⌋ < ⌈q⌉ := Int.lt_ceil.mpr <|
      (Int.floor_le q).lt_of_ne fun h => hfract (sub_eq_zero.mpr h.symm)
    rw [roundHalfEven]
    split_ifs <;> omega

/-- Rounding stays below an integer above. -/
theorem roundHalfEven_le {n : ℤ} {q : K} (h : q ≤ (n : K)) : roundHalfEven q ≤ n :=
  (roundHalfEven_le_ceil q).trans (Int.ceil_le.mpr h)

end Tile
