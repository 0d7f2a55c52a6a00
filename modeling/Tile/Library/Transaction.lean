import Tile.Library.Effect

/-!
# Library/Transaction — a block that happens whole or not at all

A program runs statements against some data.  Inside a transaction they act on a copy, which a
commit publishes and a rollback drops; any statement, the commit included, may fail by a fault of
the backend.  Three things hold of a program of statements (`Transactional`), and so of a block of
them: it sees the copy alone, it stays in the transaction, and a fault can only make it fail.

**A block that fails leaves the data as it was, and a block that succeeds did what its program does
on a healthy backend** (`immediate_cases`), where a program is the composition of its parts
(`eval_bind`).
-/

namespace Tile

/-- What is committed, the copy of a transaction, and which of the next statements fail. -/
structure TransactionState (δ : Type) where
  committed : δ
  working : Option δ := none
  faults : List Bool := []

namespace TransactionState

variable {δ : Type} (s : TransactionState δ)

/-- The same state on a healthy backend. -/
def healthy : TransactionState δ := { s with faults := [] }

/-- What a statement sees. -/
def view : δ := s.working.getD s.committed

/-- The state behind a statement that left `data`. -/
def write (data : δ) : TransactionState δ :=
  match s.working with
  | some _ => { s with working := some data }
  | none => { s with committed := data }

end TransactionState

namespace Transaction

variable {δ ε α β : Type}

/-- Use up the next entry of the schedule, and fail if it says so. -/
def tick (fault : ε) : Effect (TransactionState δ) ε Unit := fun s =>
  match s.faults with
  | true :: rest => (.error fault, { s with faults := rest })
  | false :: rest => (.ok (), { s with faults := rest })
  | [] => (.ok (), s)

/-- What a statement does that the backend does not fail. -/
def perform (act : δ → Except ε (α × δ)) : Effect (TransactionState δ) ε α := fun s =>
  match act s.view with
  | .ok (a, data) => (.ok a, s.write data)
  | .error error => (.error error, s)

def execute (fault : ε) (act : δ → Except ε (α × δ)) : Effect (TransactionState δ) ε α := do
  tick fault
  perform act

def query (fault : ε) (read : δ → α) : Effect (TransactionState δ) ε α :=
  execute fault fun data => .ok (read data, data)

/-- `COMMIT`. -/
def commit (fault : ε) : Effect (TransactionState δ) ε Unit := do
  tick fault
  Effect.modify fun s => { s with committed := s.view, working := none }

/-- Run a block, and end the transaction it is in. -/
def leave (fault : ε) (body : Effect (TransactionState δ) ε α) : Effect (TransactionState δ) ε α :=
  Effect.catching
    (do
      let result ← body
      commit fault
      return result)
    fun error => do
      Effect.modify fun s => { s with working := none }
      Effect.raise error

/-- Run a block inside a write transaction. -/
def immediate (fault : ε) (body : Effect (TransactionState δ) ε α) :
    Effect (TransactionState δ) ε α := do
  tick fault
  Effect.modify fun s => { s with working := some s.committed }
  leave fault body

theorem perform_of_ok {act : δ → Except ε (α × δ)} {data data' committed : δ} {a : α}
    {faults : List Bool} (h : act data = .ok (a, data')) :
    perform act { committed, working := some data, faults }
      = (.ok a, { committed, working := some data', faults }) := by
  simp [perform, TransactionState.view, TransactionState.write, h]

theorem perform_of_error {act : δ → Except ε (α × δ)} {data committed : δ} {error : ε}
    {faults : List Bool} (h : act data = .error error) :
    perform act { committed, working := some data, faults }
      = (.error error, { committed, working := some data, faults }) := by
  simp [perform, TransactionState.view, h]

/-! ## Programs of statements -/

/-- A program that is made of statements inside a transaction. -/
structure Transactional (m : Effect (TransactionState δ) ε α) : Prop where
  /-- It sees the copy alone. -/
  blind : ∀ s committed, s.working.isSome = true →
    m { s with committed } = ((m s).1, { (m s).2 with committed })
  stays : ∀ s, s.working.isSome = true → (m s).2.working.isSome = true
  /-- It does what it would do on a healthy backend, if it succeeds. -/
  steady : ∀ s a s', m s = (.ok a, s') → m s.healthy = (.ok a, s'.healthy)
  healthy : ∀ s, s.faults = [] → (m s).2.faults = []

namespace Transactional

theorem committed_eq {m : Effect (TransactionState δ) ε α} (hm : Transactional m)
    {s : TransactionState δ} (hs : s.working.isSome = true) : (m s).2.committed = s.committed :=
  congrArg (·.2.committed) (hm.blind s s.committed hs)

theorem pure (a : α) : Transactional (pure a : Effect (TransactionState δ) ε α) where
  blind _ _ _ := rfl
  stays _ h := h
  steady := by
    intro s b s' h
    obtain ⟨hb, rfl⟩ := Prod.mk.inj h
    exact Prod.ext hb rfl
  healthy _ h := h

theorem raise (error : ε) :
    Transactional (Effect.raise error : Effect (TransactionState δ) ε α) where
  blind _ _ _ := rfl
  stays _ h := h
  steady := by
    intro s b s' h
    cases (Prod.mk.inj h).1
  healthy _ h := h

theorem bind {m : Effect (TransactionState δ) ε α} {f : α → Effect (TransactionState δ) ε β}
    (hm : Transactional m) (hf : ∀ a, Transactional (f a)) : Transactional (m >>= f) where
  blind := by
    intro s committed hs
    have hfirst := hm.blind s committed hs
    have hstays := hm.stays s hs
    rcases hms : m s with ⟨error | a, s₁⟩
    · rw [hms] at hfirst
      rw [Effect.bind_of_error hfirst, Effect.bind_of_error hms]
    · rw [hms] at hfirst hstays
      rw [Effect.bind_of_ok hfirst, Effect.bind_of_ok hms]
      exact (hf a).blind s₁ committed hstays
  stays := by
    intro s hs
    have hstays := hm.stays s hs
    rcases hms : m s with ⟨error | a, s₁⟩
    · rw [hms] at hstays
      rwa [Effect.bind_of_error hms]
    · rw [hms] at hstays
      rw [Effect.bind_of_ok hms]
      exact (hf a).stays s₁ hstays
  steady := by
    intro s b s' h
    rcases hms : m s with ⟨error | a, s₁⟩
    · rw [Effect.bind_of_error hms] at h
      cases (Prod.mk.inj h).1
    · rw [Effect.bind_of_ok hms] at h
      rw [Effect.bind_of_ok (hm.steady s a s₁ hms)]
      exact (hf a).steady s₁ b s' h
  healthy := by
    intro s hs
    have hfirst := hm.healthy s hs
    rcases hms : m s with ⟨error | a, s₁⟩
    · rw [hms] at hfirst
      rwa [Effect.bind_of_error hms]
    · rw [hms] at hfirst
      rw [Effect.bind_of_ok hms]
      exact (hf a).healthy s₁ hfirst

theorem tick (fault : ε) :
    Transactional (Transaction.tick fault : Effect (TransactionState δ) ε Unit) where
  blind := by
    intro s committed _
    rcases s with ⟨_, _, _ | ⟨_ | _, _⟩⟩ <;> rfl
  stays := by
    intro s h
    rcases s with ⟨_, _, _ | ⟨_ | _, _⟩⟩ <;> exact h
  steady := by
    intro s a s' h
    rcases s with ⟨_, _, _ | ⟨_ | _, _⟩⟩ <;> cases h <;> rfl
  healthy := by
    intro s h
    rcases s with ⟨_, _, _ | ⟨_ | _, _⟩⟩ <;> first | rfl | cases h

theorem perform (act : δ → Except ε (α × δ)) : Transactional (Transaction.perform act) where
  blind := by
    rintro ⟨committed, _ | data, faults⟩ committed' hs
    · cases hs
    · rcases hact : act data with error | ⟨a, data'⟩
      · rw [perform_of_error hact, perform_of_error hact]
      · rw [perform_of_ok hact, perform_of_ok hact]
  stays := by
    rintro ⟨committed, _ | data, faults⟩ hs
    · cases hs
    · rcases hact : act data with error | ⟨a, data'⟩
      · rw [perform_of_error hact]
        rfl
      · rw [perform_of_ok hact]
        rfl
  steady := by
    intro s a s' h
    have hview : s.healthy.view = s.view := rfl
    unfold Transaction.perform at h ⊢
    rw [hview]
    rcases hact : act s.view with error | ⟨b, data⟩
    · rw [hact] at h
      cases (Prod.mk.inj h).1
    · rw [hact] at h
      obtain ⟨hb, rfl⟩ := Prod.mk.inj h
      refine Prod.ext hb ?_
      rcases s with ⟨committed, _ | working, faults⟩ <;> rfl
  healthy := by
    intro s h
    unfold Transaction.perform TransactionState.write
    rcases act s.view with error | ⟨a, data⟩
    · exact h
    · rcases s with ⟨committed, _ | working, faults⟩ <;> exact h

theorem execute (fault : ε) (act : δ → Except ε (α × δ)) :
    Transactional (Transaction.execute fault act) :=
  bind (tick fault) fun _ => perform act

theorem query (fault : ε) (read : δ → α) : Transactional (Transaction.query fault read) :=
  execute fault _

end Transactional

/-! ## What a program does -/

/-- A program inside a transaction, on a healthy backend. -/
def eval (m : Effect (TransactionState δ) ε α) (data : δ) : Except ε (α × δ) :=
  match m { committed := data, working := some data } with
  | (.ok a, s) => .ok (a, s.view)
  | (.error error, _) => .error error

theorem eval_execute (fault : ε) (act : δ → Except ε (α × δ)) (data : δ) :
    eval (execute fault act) data = act data := by
  have hexecute : execute fault act { committed := data, working := some data }
      = perform act { committed := data, working := some data } := rfl
  unfold eval
  rw [hexecute]
  rcases hact : act data with error | ⟨a, data'⟩
  · rw [perform_of_error hact]
  · rw [perform_of_ok hact]
    rfl

theorem eval_query (fault : ε) (read : δ → α) (data : δ) :
    eval (query fault read) data = .ok (read data, data) := eval_execute fault _ data

/-- Evaluated on any copy, whatever is committed. -/
theorem eval_eq {m : Effect (TransactionState δ) ε α} (hm : Transactional m) (committed data : δ) :
    eval m data = (m { committed, working := some data }).1.map fun a =>
      (a, (m { committed, working := some data }).2.view) := by
  have hstays := hm.stays { committed, working := some data } rfl
  have hblind := hm.blind { committed, working := some data } data rfl
  unfold eval
  rw [hblind]
  generalize m { committed, working := some data } = run at hstays
  rcases run with ⟨error | a, committed', _ | working, faults⟩
  · cases hstays
  · rfl
  · cases hstays
  · rfl

theorem eval_of_ok {m : Effect (TransactionState δ) ε α} (hm : Transactional m)
    {committed data : δ} {a : α} {s : TransactionState δ}
    (h : m { committed, working := some data } = (.ok a, s)) : eval m data = .ok (a, s.view) := by
  rw [eval_eq hm committed, h]
  rfl

theorem eval_of_error {m : Effect (TransactionState δ) ε α} (hm : Transactional m)
    {committed data : δ} {error : ε} {s : TransactionState δ}
    (h : m { committed, working := some data } = (.error error, s)) :
    eval m data = .error error := by
  rw [eval_eq hm committed, h]
  rfl

/-- **A program is the composition of its parts.** -/
theorem eval_bind {m : Effect (TransactionState δ) ε α} {f : α → Effect (TransactionState δ) ε β}
    (hm : Transactional m) (hf : ∀ a, Transactional (f a)) (data : δ) :
    eval (m >>= f) data = eval m data >>= fun result => eval (f result.1) result.2 := by
  have hstays := hm.stays { committed := data, working := some data } rfl
  have hhealthy := hm.healthy { committed := data, working := some data } rfl
  rcases hms : m { committed := data, working := some data } with ⟨error | a, s⟩
  · rw [eval_of_error hm hms, eval_of_error (hm.bind hf) (Effect.bind_of_error hms f)]
    rfl
  · rw [hms] at hstays hhealthy
    rw [eval_of_ok hm hms, eval_eq (hm.bind hf) data, Effect.bind_of_ok hms]
    obtain ⟨committed, _ | working, faults⟩ := s
    · cases hstays
    · obtain rfl : faults = [] := hhealthy
      exact (eval_eq (hf a) committed working).symm

/-! ## A block -/

theorem tick_cases (fault : ε) (s : TransactionState δ) :
    (∃ faults, tick fault s = (.error fault, { s with faults })) ∨
      ∃ faults, tick fault s = (.ok (), { s with faults }) ∧ (s.faults = [] → faults = []) := by
  rcases s with ⟨committed, working, _ | ⟨_ | _, rest⟩⟩
  · exact .inr ⟨[], rfl, fun _ => rfl⟩
  · exact .inr ⟨rest, rfl, fun h => by cases h⟩
  · exact .inl ⟨rest, rfl⟩

theorem tick_healthy (fault : ε) {s : TransactionState δ} (h : s.faults = []) :
    tick fault s = (.ok (), s) := by
  unfold tick
  rw [h]

section Block

variable {body : Effect (TransactionState δ) ε α} (fault : ε)

theorem leave_of_error {s s' : TransactionState δ} {error : ε} (h : body s = (.error error, s')) :
    leave fault body s = (.error error, { s' with working := none }) :=
  Effect.catching_of_error (Effect.bind_of_error h _) _

theorem leave_of_ok {s s' : TransactionState δ} {a : α} (h : body s = (.ok a, s')) :
    (∃ faults, leave fault body s = (.error fault, { s' with working := none, faults })) ∨
      ∃ faults, leave fault body s
        = (.ok a, { committed := s'.view, working := none, faults }) := by
  rcases tick_cases fault s' with ⟨faults, htick⟩ | ⟨faults, htick, -⟩
  · have hcommit : commit fault s' = (.error fault, { s' with faults }) :=
      Effect.bind_of_error htick _
    have hbody := (Effect.bind_of_ok h fun result => do
      commit fault
      return result).trans (Effect.bind_of_error hcommit _)
    exact .inl ⟨faults, Effect.catching_of_error hbody _⟩
  · have hcommit : commit fault s' = (.ok (), { committed := s'.view, working := none, faults }) :=
      Effect.bind_of_ok htick _
    have hbody := (Effect.bind_of_ok h fun result => do
      commit fault
      return result).trans (Effect.bind_of_ok hcommit _)
    exact .inr ⟨faults, Effect.catching_of_ok hbody _⟩

/-- **A block fails and leaves the data as it was, or does what its program does on a healthy
backend.** -/
theorem immediate_cases (hbody : Transactional body) {s : TransactionState δ}
    (hs : s.working = none) :
    (∃ error s', immediate fault body s = (.error error, s') ∧ s'.committed = s.committed ∧
      s'.working = none) ∨
    ∃ a s', immediate fault body s = (.ok a, s') ∧ s'.working = none ∧
      eval body s.committed = .ok (a, s'.committed) := by
  obtain ⟨committed, working, faults⟩ := s
  obtain rfl : working = none := hs
  rcases tick_cases fault (δ := δ) { committed, faults } with ⟨faults', htick⟩ | ⟨faults', htick, -⟩
  · exact .inl ⟨fault, _, Effect.bind_of_error htick _, rfl, rfl⟩
  · have himmediate : immediate fault body { committed, faults }
        = leave fault body { committed, working := some committed, faults := faults' } :=
      Effect.bind_of_ok htick _
    rw [himmediate]
    have hkept := hbody.committed_eq
      (s := { committed, working := some committed, faults := faults' }) rfl
    rcases hrun : body { committed, working := some committed, faults := faults' } with
      ⟨error | a, s'⟩
    · rw [hrun] at hkept
      exact .inl ⟨error, _, leave_of_error fault hrun, hkept, rfl⟩
    · rw [hrun] at hkept
      have heval := eval_of_ok hbody (hbody.steady _ a s' hrun)
      rcases leave_of_ok fault hrun with ⟨faults'', hleave⟩ | ⟨faults'', hleave⟩
      · exact .inl ⟨fault, _, hleave, hkept, rfl⟩
      · exact .inr ⟨a, _, hleave, rfl, heval⟩

/-- On a healthy backend a block ends as its program does. -/
theorem immediate_healthy (hbody : Transactional body) (data : δ) :
    (immediate fault body { committed := data }).1 = (eval body data).map (·.1) := by
  have himmediate : immediate fault body { committed := data }
      = leave fault body { committed := data, working := some data } := rfl
  have hhealthy := hbody.healthy { committed := data, working := some data } rfl
  rw [himmediate]
  rcases hrun : body { committed := data, working := some data } with ⟨error | a, s⟩
  · rw [leave_of_error fault hrun, eval_of_error hbody hrun]
    rfl
  · rw [hrun] at hhealthy
    have hcommit : commit fault s = (.ok (), { s with committed := s.view, working := none }) :=
      Effect.bind_of_ok (tick_healthy fault hhealthy) _
    have hblock := (Effect.bind_of_ok hrun fun result => do
      commit fault
      return result).trans (Effect.bind_of_ok hcommit _)
    rw [eval_of_ok hbody hrun, leave, Effect.catching_of_ok hblock]
    rfl

end Block

end Transaction

end Tile
