import Mathlib.Order.Basic

/-!
# Library/Loop — a `while` loop with any body

A turn of the loop goes on with another state or leaves with a result.  The loop runs on fuel; a
measure that falls from turn to turn is **fuel enough** (`loop_terminates`), and what a result says
of the run is the state of the last turn (`exists_of_loop`).
-/

namespace Tile

variable {σ : Type u} {ρ : Type v}

/-- How a turn ends. -/
inductive Turn (σ : Type u) (ρ : Type v) where
  | again (s : σ)
  | leave (r : ρ)

/-- At most `fuel` turns; `none` when these do not leave the loop. -/
def loop (turn : σ → Turn σ ρ) : (fuel : Nat) → σ → Option ρ
  | 0, _ => none
  | fuel + 1, s => match turn s with
    | .again s' => loop turn fuel s'
    | .leave r => some r

/-- The states in which a turn begins. -/
inductive AtHead (turn : σ → Turn σ ρ) (s₀ : σ) : σ → Prop where
  | start : AtHead turn s₀ s₀
  | again {s s' : σ} : AtHead turn s₀ s → turn s = .again s' → AtHead turn s₀ s'

section Loop

variable {turn : σ → Turn σ ρ} {s s' : σ} {r : ρ}

theorem loop_again (h : turn s = .again s') (fuel : Nat) :
    loop turn (fuel + 1) s = loop turn fuel s' := by
  rw [loop, h]

theorem loop_leave (h : turn s = .leave r) (fuel : Nat) : loop turn (fuel + 1) s = some r := by
  rw [loop, h]

namespace AtHead

variable {s₀ : σ}

/-- **Loop invariants.** -/
theorem invariant {P : σ → Prop} (hstart : P s₀)
    (hturn : ∀ {s s'}, P s → turn s = .again s' → P s') (h : AtHead turn s₀ s) : P s := by
  induction h with
  | start => exact hstart
  | again _ hagain ih => exact hturn ih hagain

/-- What comes after the first turn. -/
theorem tail (h : turn s₀ = .again s) (h' : AtHead turn s s') : AtHead turn s₀ s' :=
  h'.invariant (start.again h) again

end AtHead

/-- **What is left with**, a turn returned. -/
theorem exists_of_loop {fuel : Nat} (h : loop turn fuel s = some r) :
    ∃ last, AtHead turn s last ∧ turn last = .leave r := by
  induction fuel generalizing s with
  | zero => cases h
  | succ fuel ih =>
    rcases hturn : turn s with s' | r'
    · rw [loop_again hturn] at h
      obtain ⟨last, hlast, hleave⟩ := ih h
      exact ⟨last, hlast.tail hturn, hleave⟩
    · rw [loop_leave hturn] at h
      obtain rfl := Option.some.inj h
      exact ⟨s, .start, hturn⟩

/-- **Termination**: one result, whatever fuel above the measure there is. -/
theorem loop_terminates {P : σ → Prop} (measure : σ → Nat)
    (hturn : ∀ {s s'}, P s → turn s = .again s' → P s' ∧ measure s' < measure s) (hs : P s) :
    ∃ r, ∀ fuel, measure s < fuel → loop turn fuel s = some r := by
  induction hbound : measure s using Nat.strongRecOn generalizing s with
  | ind bound ih =>
    rcases hstep : turn s with s' | r
    · obtain ⟨hs', hlt⟩ := hturn hs hstep
      obtain ⟨r, hr⟩ := ih (measure s') (hbound ▸ hlt) hs' rfl
      refine ⟨r, fun fuel hfuel => ?_⟩
      obtain ⟨fuel, rfl⟩ := Nat.exists_eq_add_one_of_ne_zero (Nat.ne_zero_of_lt hfuel)
      rw [loop_again hstep]
      exact hr fuel (by omega)
    · refine ⟨r, fun fuel hfuel => ?_⟩
      obtain ⟨fuel, rfl⟩ := Nat.exists_eq_add_one_of_ne_zero (Nat.ne_zero_of_lt hfuel)
      exact loop_leave hstep fuel

end Loop

end Tile
