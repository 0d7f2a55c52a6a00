/-!
# Library/Run — runs of a labelled transition system

A run is a finite sequence of labelled steps.  Runs compose and split at any point, an inductive
invariant holds at the end of each of them, and a relation that every step keeps, keeps over a whole
run.
-/

namespace Tile

variable {σ : Type u} {ℓ : Type v} {step : σ → ℓ → σ → Prop}

/-- `Run step s labels s'`: the steps with these labels, in this order, lead from `s` to `s'`. -/
inductive Run (step : σ → ℓ → σ → Prop) : σ → List ℓ → σ → Prop where
  | nil (s : σ) : Run step s [] s
  | cons {s t s' : σ} {label : ℓ} {labels : List ℓ} :
      step s label t → Run step t labels s' → Run step s (label :: labels) s'

namespace Run

variable {s s' : σ} {labels labels' : List ℓ}

theorem single {label : ℓ} (h : step s label s') : Run step s [label] s' := .cons h (.nil s')

theorem append {t : σ} (h : Run step s labels t) (h' : Run step t labels' s') :
    Run step s (labels ++ labels') s' := by
  induction h with
  | nil _ => exact h'
  | cons hstep _ ih => exact .cons hstep (ih h')

/-- **A run splits at every point.** -/
theorem split : ∀ {labels : List ℓ} {s : σ}, Run step s (labels ++ labels') s' →
    ∃ t, Run step s labels t ∧ Run step t labels' s'
  | [], s, h => ⟨s, .nil s, h⟩
  | _ :: _, _, .cons h rest =>
    let ⟨t, h₁, h₂⟩ := rest.split
    ⟨t, .cons h h₁, h₂⟩

theorem snoc {t : σ} {label : ℓ} (h : Run step s labels t) (h' : step t label s') :
    Run step s (labels ++ [label]) s' := h.append (.single h')

theorem of_nil (h : Run step s [] s') : s' = s := by
  cases h
  rfl

theorem of_cons {label : ℓ} (h : Run step s (label :: labels) s') :
    ∃ t, step s label t ∧ Run step t labels s' := by
  cases h with
  | cons hstep rest => exact ⟨_, hstep, rest⟩

theorem of_snoc {label : ℓ} (h : Run step s (labels ++ [label]) s') :
    ∃ t, Run step s labels t ∧ step t label s' := by
  obtain ⟨t, h₁, h₂⟩ := h.split
  obtain ⟨u, hstep, hnil⟩ := h₂.of_cons
  obtain rfl := hnil.of_nil
  exact ⟨t, h₁, hstep⟩

/-- **The step that carries a given occurrence of a label.** -/
theorem split_at {label : ℓ} {before after : List ℓ}
    (h : Run step s (before ++ label :: after) s') :
    ∃ t t', Run step s before t ∧ step t label t' ∧ Run step t' after s' := by
  obtain ⟨t, h₁, h₂⟩ := h.split
  obtain ⟨t', hstep, h₃⟩ := h₂.of_cons
  exact ⟨t, t', h₁, hstep, h₃⟩

/-- **Inductive invariants.** -/
theorem invariant {P : σ → Prop} (hstep : ∀ {s label s'}, step s label s' → P s → P s')
    (h : Run step s labels s') (hs : P s) : P s' := by
  induction h with
  | nil _ => exact hs
  | cons h _ ih => exact ih (hstep h hs)

/-- **Preserved relations**: a reflexive, transitive relation that each step keeps, under an
invariant, relates the two ends of a run. -/
theorem relates {P : σ → Prop} {R : σ → σ → Prop}
    (hinv : ∀ {s label s'}, step s label s' → P s → P s')
    (hstep : ∀ {s label s'}, step s label s' → P s → R s s')
    (hrefl : ∀ s, R s s) (htrans : ∀ {s t s'}, R s t → R t s' → R s s')
    (h : Run step s labels s') (hs : P s) : R s s' := by
  induction h with
  | nil s => exact hrefl s
  | cons h _ ih => exact htrans (hstep h hs) (ih (hinv h hs))

/-- **Induction from the end.** -/
theorem snocInduction {motive : List ℓ → σ → Prop} (nil : motive [] s)
    (snoc : ∀ {labels t label s'}, Run step s labels t → step t label s' → motive labels t →
      motive (labels ++ [label]) s') (h : Run step s labels s') : motive labels s' := by
  induction hrev : labels.reverse generalizing labels s' with
  | nil =>
    obtain rfl : labels = [] := List.reverse_eq_nil_iff.mp hrev
    obtain rfl := h.of_nil
    exact nil
  | cons label rest ih =>
    obtain rfl : labels = rest.reverse ++ [label] := by
      rw [← labels.reverse_reverse, hrev, List.reverse_cons]
    obtain ⟨t, hinit, hstep⟩ := h.of_snoc
    exact snoc hinit hstep (ih hinit (List.reverse_reverse rest))

end Run

end Tile
