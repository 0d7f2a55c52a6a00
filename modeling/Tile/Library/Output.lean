import Tile.Library.Effect

/-!
# Library/Output — what a program adds to an output that only grows

A log, a list of requests, a counter: state that a program adds to and never takes from.  A `Meter`
reads it off the state.  `Adds` is a triple about the added part alone, so **a composite adds what
its parts add, one after the other** (`Adds.bind`), whatever was there before.
-/

/-- An output of type `δ`: `Grows s d s'` says that `s'` has the output of `s` and then `d`. -/
structure Meter (σ δ : Type) where
  Grows : σ → δ → σ → Prop
  zero : δ
  add : δ → δ → δ
  grows_zero : ∀ s, Grows s zero s
  grows_add : ∀ {s t u d d'}, Grows s d t → Grows t d' u → Grows s (add d d') u

namespace Effect

variable {σ δ ε α β : Type} {meter : Meter σ δ}

/-- From any state the program adds some output: with `Q` when it ends with a value, with `E` when
it stops. -/
def Adds (meter : Meter σ δ) (m : Effect σ ε α) (Q : α → δ → Prop) (E : ε → δ → Prop) : Prop :=
  ∀ s, ∃ d, meter.Grows s d (m s).2 ∧ match (m s).1 with
    | .ok a => Q a d
    | .error e => E e d

section Rules

variable {m : Effect σ ε α} {Q Q' : α → δ → Prop} {R : β → δ → Prop} {E E' : ε → δ → Prop}

/-- What was added when it ended with a value. -/
theorem Adds.ok (h : Adds meter m Q E) {s s' : σ} {a : α} (hm : m s = (.ok a, s')) :
    ∃ d, meter.Grows s d s' ∧ Q a d := by
  simpa [hm] using h s

/-- What was added when it stopped. -/
theorem Adds.error (h : Adds meter m Q E) {s s' : σ} {e : ε} (hm : m s = (.error e, s')) :
    ∃ d, meter.Grows s d s' ∧ E e d := by
  simpa [hm] using h s

/-- The two ways to end, one by one. -/
theorem Adds.intro (hok : ∀ s a s', m s = (.ok a, s') → ∃ d, meter.Grows s d s' ∧ Q a d)
    (herror : ∀ s e s', m s = (.error e, s') → ∃ d, meter.Grows s d s' ∧ E e d) :
    Adds meter m Q E := by
  intro s
  rcases hm : m s with ⟨e | a, s'⟩
  · exact herror s e s' hm
  · exact hok s a s' hm

/-- **The rule of consequence.** -/
theorem Adds.weaken (h : Adds meter m Q E) (hQ : ∀ a d, Q a d → Q' a d)
    (hE : ∀ e d, E e d → E' e d) : Adds meter m Q' E' :=
  .intro (fun _ a _ hm => (h.ok hm).imp fun d hd => ⟨hd.1, hQ a d hd.2⟩)
    (fun _ e _ hm => (h.error hm).imp fun d hd => ⟨hd.1, hE e d hd.2⟩)

/-- A value adds nothing. -/
theorem Adds.pure {a : α} (h : Q a meter.zero) : Adds meter (pure a : Effect σ ε α) Q E :=
  fun s => ⟨meter.zero, meter.grows_zero s, h⟩

/-- A stop adds nothing of its own. -/
theorem Adds.raise {e : ε} (h : E e meter.zero) : Adds meter (raise e : Effect σ ε α) Q E :=
  fun s => ⟨meter.zero, meter.grows_zero s, h⟩

/-- A change of the state adds what the meter shows of it. -/
theorem Adds.modify {f : σ → σ} {d : δ} {Q : Unit → δ → Prop} (hgrows : ∀ s, meter.Grows s d (f s))
    (h : Q () d) : Adds meter (modify f : Effect σ ε Unit) Q E :=
  fun s => ⟨d, hgrows s, h⟩

/-- A look at the state adds nothing. -/
theorem Adds.gets {f : σ → α} (h : ∀ s, Q (f s) meter.zero) :
    Adds meter (gets f : Effect σ ε α) Q E :=
  fun s => ⟨meter.zero, meter.grows_zero s, h s⟩

/-- A computation without state adds nothing. -/
theorem Adds.lift {f : σ → Except ε α} (hok : ∀ s a, f s = .ok a → Q a meter.zero)
    (herror : ∀ s e, f s = .error e → E e meter.zero) : Adds meter (lift f) Q E := by
  refine .intro (fun s a s' hm => ?_) (fun s e s' hm => ?_)
  · obtain ⟨hf, rfl⟩ := Prod.mk.inj hm
    exact ⟨meter.zero, meter.grows_zero s, hok s a hf⟩
  · obtain ⟨hf, rfl⟩ := Prod.mk.inj hm
    exact ⟨meter.zero, meter.grows_zero s, herror s e hf⟩

/-- **The rule of composition**: the second part is judged by what both added together. -/
theorem Adds.bind {f : α → Effect σ ε β} (hm : Adds meter m Q E)
    (hf : ∀ a d, Q a d → Adds meter (f a) (fun b d' => R b (meter.add d d'))
      fun e d' => E e (meter.add d d')) : Adds meter (m >>= f) R E := by
  refine .intro (fun s b s'' h => ?_) (fun s e s'' h => ?_)
  · obtain ⟨a, s', h₁, h₂⟩ := bind_eq_ok.mp h
    obtain ⟨d, hd, hQ⟩ := hm.ok h₁
    obtain ⟨d', hd', hR⟩ := (hf a d hQ).ok h₂
    exact ⟨meter.add d d', meter.grows_add hd hd', hR⟩
  · rcases bind_eq_error.mp h with h | ⟨a, s', h₁, h₂⟩
    · exact hm.error h
    · obtain ⟨d, hd, hQ⟩ := hm.ok h₁
      obtain ⟨d', hd', hE⟩ := (hf a d hQ).error h₂
      exact ⟨meter.add d d', meter.grows_add hd hd', hE⟩

end Rules

end Effect
