import Mathlib.Logic.Basic
import Mathlib.Tactic.Common

/-!
# Library/Effect — programs over a state that may stop early

`Effect σ ε α` reads and writes a state `σ` and ends with a value or stops with an `ε`.  The state
survives a stop, as the objects of an imperative program survive an exception.  Two ways to reason:

* **inversion** (`bind_eq_ok`, `bind_eq_error`): peel a run apart, step by step;
* **triples** (`Spec`): a precondition, a postcondition for values, one for stops.
-/

/-- Two parts of a fallible computation both gave a value. -/
theorem except_bind_eq_ok {ε α β : Type} {x : Except ε α} {f : α → Except ε β} {b : β} :
    x >>= f = .ok b ↔ ∃ a, x = .ok a ∧ f a = .ok b := by
  cases x with
  | error e => exact iff_of_false (fun h => by cases h) (by simp)
  | ok a => exact ⟨fun h => ⟨a, rfl, h⟩, fun ⟨_, h, h'⟩ => by cases h; exact h'⟩

/-- Renaming errors leaves values alone. -/
theorem mapError_eq_ok {ε ε' α : Type} {m : Except ε α} {f : ε → ε'} {a : α}
    (h : m.mapError f = .ok a) : m = .ok a := by
  rcases m with e | a
  · cases h
  · rw [Except.ok.inj h]

/-- A fallible function that gives a value at each entry gives the list of them. -/
theorem mapM_map_ok {α β γ ε : Type} {f : α → β} {g : β → Except ε γ} {value : α → γ}
    (h : ∀ a, g (f a) = .ok (value a)) : ∀ items : List α,
    (items.map f).mapM g = .ok (items.map value)
  | [] => rfl
  | a :: rest => by
    rw [List.map_cons, List.mapM_cons, h, mapM_map_ok h rest]
    rfl

/-- A program over the state `σ`; a stop keeps the state it stopped in. -/
def Effect (σ ε α : Type) : Type := σ → Except ε α × σ

namespace Effect

variable {σ ε α β : Type}

protected def pure (a : α) : Effect σ ε α := fun s => (.ok a, s)

protected def bind (m : Effect σ ε α) (f : α → Effect σ ε β) : Effect σ ε β := fun s =>
  match m s with
  | (.ok a, s') => f a s'
  | (.error e, s') => (.error e, s')

instance : Monad (Effect σ ε) where
  pure := Effect.pure
  bind := Effect.bind

/-- Stop with `e`. -/
def raise (e : ε) : Effect σ ε α := fun s => (.error e, s)

/-- Read the state through `f`. -/
def gets (f : σ → α) : Effect σ ε α := fun s => (.ok (f s), s)

/-- Update the state. -/
def modify (f : σ → σ) : Effect σ ε Unit := fun s => (.ok (), f s)

/-- A value, or a stop, decided by the state alone. -/
def lift (f : σ → Except ε α) : Effect σ ε α := fun s => (f s, s)

/-- Run `handler` on a stop of `m`, in the state `m` stopped in. -/
def catching (m : Effect σ ε α) (handler : ε → Effect σ ε α) : Effect σ ε α := fun s =>
  match m s with
  | (.ok a, s') => (.ok a, s')
  | (.error e, s') => handler e s'

/-! ## Running -/

@[simp] theorem pure_apply (a : α) (s : σ) : (pure a : Effect σ ε α) s = (.ok a, s) := rfl

@[simp] theorem raise_apply (e : ε) (s : σ) : (raise e : Effect σ ε α) s = (.error e, s) := rfl

@[simp] theorem modify_apply (f : σ → σ) (s : σ) :
    (modify f : Effect σ ε Unit) s = (.ok (), f s) := rfl

@[simp] theorem lift_apply (f : σ → Except ε α) (s : σ) : lift f s = (f s, s) := rfl

theorem bind_apply (m : Effect σ ε α) (f : α → Effect σ ε β) (s : σ) :
    (m >>= f) s = Effect.bind m f s := rfl

/-- A first part that ends with a value hands its state on. -/
theorem bind_of_ok {m : Effect σ ε α} {s s' : σ} {a : α} (h : m s = (.ok a, s'))
    (f : α → Effect σ ε β) : (m >>= f) s = f a s' := by
  simp only [bind_apply, Effect.bind, h]

/-- A first part that stops, stops the whole. -/
theorem bind_of_error {m : Effect σ ε α} {s s' : σ} {e : ε} (h : m s = (.error e, s'))
    (f : α → Effect σ ε β) : (m >>= f) s = (.error e, s') := by
  simp only [bind_apply, Effect.bind, h]

theorem catching_of_ok {m : Effect σ ε α} {s s' : σ} {a : α} (h : m s = (.ok a, s'))
    (handler : ε → Effect σ ε α) : catching m handler s = (.ok a, s') := by
  simp only [catching, h]

theorem catching_of_error {m : Effect σ ε α} {s s' : σ} {e : ε} (h : m s = (.error e, s'))
    (handler : ε → Effect σ ε α) : catching m handler s = handler e s' := by
  simp only [catching, h]

/-! ## Inversion -/

/-- **A composite that ends with a value**: both parts did. -/
theorem bind_eq_ok {m : Effect σ ε α} {f : α → Effect σ ε β} {s s'' : σ} {b : β} :
    (m >>= f) s = (.ok b, s'') ↔ ∃ a s', m s = (.ok a, s') ∧ f a s' = (.ok b, s'') := by
  rw [bind_apply, Effect.bind]
  rcases hm : m s with ⟨e | a, s'⟩
  · simp
  · simp

/-- **A composite that stops**: in its first part, or in its second. -/
theorem bind_eq_error {m : Effect σ ε α} {f : α → Effect σ ε β} {s s'' : σ} {e : ε} :
    (m >>= f) s = (.error e, s'') ↔
      m s = (.error e, s'') ∨ ∃ a s', m s = (.ok a, s') ∧ f a s' = (.error e, s'') := by
  rw [bind_apply, Effect.bind]
  rcases hm : m s with ⟨e' | a, s'⟩
  · simp
  · simp

/-! ## Triples -/

/-- **The triple of `m`**: from a state with `P`, a value comes with `Q`, a stop with `E`. -/
def Spec (P : σ → Prop) (m : Effect σ ε α) (Q : α → σ → Prop) (E : ε → σ → Prop) : Prop :=
  ∀ s, P s → match m s with
    | (.ok a, s') => Q a s'
    | (.error e, s') => E e s'

section Rules

variable {P P' : σ → Prop} {Q Q' : α → σ → Prop} {R : β → σ → Prop} {E E' : ε → σ → Prop}

theorem Spec.ok {m : Effect σ ε α} (h : Spec P m Q E) {s s' : σ} {a : α} (hP : P s)
    (hm : m s = (.ok a, s')) : Q a s' := by
  simpa only [hm] using h s hP

theorem Spec.error {m : Effect σ ε α} (h : Spec P m Q E) {s s' : σ} {e : ε} (hP : P s)
    (hm : m s = (.error e, s')) : E e s' := by
  simpa only [hm] using h s hP

theorem Spec.intro {m : Effect σ ε α}
    (hok : ∀ s a s', P s → m s = (.ok a, s') → Q a s')
    (herror : ∀ s e s', P s → m s = (.error e, s') → E e s') : Spec P m Q E := by
  intro s hP
  rcases hm : m s with ⟨e | a, s'⟩
  · exact herror s e s' hP hm
  · exact hok s a s' hP hm

theorem Spec.weaken {m : Effect σ ε α} (h : Spec P m Q E) (hP : ∀ s, P' s → P s)
    (hQ : ∀ a s, Q a s → Q' a s) (hE : ∀ e s, E e s → E' e s) : Spec P' m Q' E' :=
  Spec.intro (fun s _ _ hs hm => hQ _ _ (h.ok (hP s hs) hm))
    (fun s _ _ hs hm => hE _ _ (h.error (hP s hs) hm))

theorem Spec.pure {a : α} (h : ∀ s, P s → Q a s) : Spec P (pure a : Effect σ ε α) Q E :=
  fun s hP => h s hP

theorem Spec.raise {e : ε} (h : ∀ s, P s → E e s) : Spec P (raise e : Effect σ ε α) Q E :=
  fun s hP => h s hP

theorem Spec.modify {f : σ → σ} {Q : Unit → σ → Prop} (h : ∀ s, P s → Q () (f s)) :
    Spec P (modify f : Effect σ ε Unit) Q E :=
  fun s hP => h s hP

theorem Spec.gets {f : σ → α} (h : ∀ s, P s → Q (f s) s) :
    Spec P (gets f : Effect σ ε α) Q E :=
  fun s hP => h s hP

theorem Spec.lift {f : σ → Except ε α} (hok : ∀ a s, P s → Q a s) (herror : ∀ e s, P s → E e s) :
    Spec P (lift f) Q E :=
  Spec.intro (fun s a _ hP h => (Prod.mk.inj h).2 ▸ hok a s hP)
    (fun s e _ hP h => (Prod.mk.inj h).2 ▸ herror e s hP)

/-- **The rule of composition.** -/
theorem Spec.bind {m : Effect σ ε α} {f : α → Effect σ ε β} (hm : Spec P m Q E)
    (hf : ∀ a, Spec (Q a) (f a) R E) : Spec P (m >>= f) R E := by
  refine Spec.intro (fun s b s'' hP h => ?_) (fun s e s'' hP h => ?_)
  · obtain ⟨a, s', h₁, h₂⟩ := bind_eq_ok.mp h
    exact (hf a).ok (hm.ok hP h₁) h₂
  · rcases bind_eq_error.mp h with h | ⟨a, s', h₁, h₂⟩
    · exact hm.error hP h
    · exact (hf a).error (hm.ok hP h₁) h₂

/-- An existential precondition is a parameter. -/
theorem Spec.exists {ι : Sort*} {P : ι → σ → Prop} {m : Effect σ ε α}
    (h : ∀ i, Spec (P i) m Q E) : Spec (fun s => ∃ i, P i s) m Q E :=
  fun s ⟨i, hi⟩ => h i s hi

/-- A precondition that does not mention the state is an assumption. -/
theorem Spec.assume {p : Prop} {m : Effect σ ε α} (h : p → Spec P m Q E) :
    Spec (fun s => p ∧ P s) m Q E :=
  fun s hs => h hs.1 s hs.2

end Rules

/-! ## Invariants -/

/-- `m` keeps the invariant, however it ends. -/
def Keeps (I : σ → Prop) (m : Effect σ ε α) : Prop := Spec I m (fun _ => I) (fun _ => I)

section Keeps

variable {I : σ → Prop}

theorem Keeps.pure {a : α} : Keeps I (pure a : Effect σ ε α) := Spec.pure fun _ h => h

theorem Keeps.raise {e : ε} : Keeps I (raise e : Effect σ ε α) := Spec.raise fun _ h => h

theorem Keeps.gets {f : σ → α} : Keeps I (gets f : Effect σ ε α) := Spec.gets fun _ h => h

theorem Keeps.lift {f : σ → Except ε α} : Keeps I (lift f) :=
  Spec.lift (fun _ _ h => h) fun _ _ h => h

theorem Keeps.modify {f : σ → σ} (h : ∀ s, I s → I (f s)) :
    Keeps I (modify f : Effect σ ε Unit) := Spec.modify h

theorem Keeps.bind {m : Effect σ ε α} {f : α → Effect σ ε β} (hm : Keeps I m)
    (hf : ∀ a, Keeps I (f a)) : Keeps I (m >>= f) := Spec.bind hm hf

/-- What was decided is known from there on. -/
theorem Keeps.lift_bind {f : σ → Except ε α} {g : α → Effect σ ε β}
    (h : ∀ a s, f s = .ok a → Keeps I (g a)) : Keeps I (Effect.lift f >>= g) := by
  refine Spec.bind (Q := fun a s => (∃ t, f t = .ok a) ∧ I s) (Spec.intro ?_ ?_)
    fun a => Spec.assume fun ⟨t, ht⟩ => h a t ht
  · intro s a s' hs hrun
    obtain ⟨hf, rfl⟩ := Prod.mk.inj hrun
    exact ⟨⟨s, hf⟩, hs⟩
  · intro s e s' hs hrun
    exact (Prod.mk.inj hrun).2 ▸ hs

/-- **What is kept holds in the end.** -/
theorem Keeps.apply {m : Effect σ ε α} (hm : Keeps I m) {s : σ} (h : I s) : I (m s).2 := by
  have hend := hm s h
  rcases hrun : m s with ⟨_ | _, s'⟩ <;> rw [hrun] at hend <;> exact hend

end Keeps

end Effect
