import Tile.Library.Run

/-!
# Library/Progress — systems that end

A transition system whose steps lower a measure takes no more steps than the measure says
(`length_add_measure_le`).  If it can also take a step wherever it has not ended, **it can go on to
the end**; where only some steps keep an invariant, those are the ones it takes (`exists_ended`).
-/

namespace Tile

namespace Run

variable {σ : Type u} {ℓ : Type v} {step : σ → ℓ → σ → Prop} {P : σ → Prop} {measure : σ → Nat}
  {s s' : σ} {labels : List ℓ}

theorem length_add_measure_le
    (hinv : ∀ s label s', step s label s' → P s → P s' ∧ measure s' < measure s)
    (h : Run step s labels s') (hs : P s) : labels.length + measure s' ≤ measure s := by
  induction h with
  | nil s => simp
  | cons hstep _ ih =>
    obtain ⟨hnext, hlt⟩ := hinv _ _ _ hstep hs
    have hrest := ih hnext
    rw [List.length_cons]
    omega

/-- **A system that can go on ends**: a step that it can take lowers the measure and keeps `P`. -/
theorem exists_ended {Ended : σ → Prop}
    (hprogress : ∀ s, P s →
      Ended s ∨ ∃ label s', step s label s' ∧ P s' ∧ measure s' < measure s)
    (s : σ) (hs : P s) : ∃ labels s', Run step s labels s' ∧ P s' ∧ Ended s' := by
  induction hbound : measure s using Nat.strongRecOn generalizing s with
  | ind bound ih =>
    rcases hprogress s hs with hended | ⟨label, t, hstep, hnext, hlt⟩
    · exact ⟨[], s, .nil s, hs, hended⟩
    · obtain ⟨labels, s', hrun, hended⟩ := ih (measure t) (hbound ▸ hlt) t hnext rfl
      exact ⟨label :: labels, s', .cons hstep hrun, hended⟩

end Run

end Tile
