import Tile.Store.Calls

/-!
# Store/Faults — what a fault of the backend can do

**A call behaves as on a healthy backend, or raises a persistence error and leaves the database
alone** (`Call.run_eq_healthy_or_fault`).  Inside a transaction the argument goes through
`FaultSafe`, closed under composition and handlers; a method that only reads is `ReadSafe`; a whole
operation, which starts and ends outside any transaction, is `AllOrNothing`.
-/

namespace Tile

variable {α β : Type}

namespace Connection

@[simp] theorem healthy_committed (c : Connection) : c.healthy.committed = c.committed := rfl

@[simp] theorem healthy_transaction (c : Connection) : c.healthy.transaction = c.transaction := rfl

@[simp] theorem healthy_view (c : Connection) : c.healthy.view = c.view := rfl

theorem healthy_eq_self {c : Connection} (h : c.faults = []) : c.healthy = c := by
  rw [healthy, ← h]

end Connection

/-- Inside a transaction, a program that leaves the committed database and the transaction's
existence alone, and does what it would do on a healthy backend unless it raises a fault. -/
def FaultSafe (m : Sql α) : Prop :=
  ∀ c : Connection, c.transaction.isSome →
    ((m c.healthy).2.committed = c.committed ∧ (m c.healthy).2.transaction.isSome ∧
      (m c.healthy).2.faults = []) ∧
    (((m c).1 = (m c.healthy).1 ∧ (m c).2.healthy = (m c.healthy).2) ∨
      ∃ e c', m c = (.error e, c') ∧ e.IsFault ∧ c'.committed = c.committed ∧
        c'.transaction.isSome)

/-- A program that only reads, up to faults. -/
def ReadSafe (m : Sql α) : Prop :=
  ∀ c : Connection, (m c.healthy).2 = c.healthy ∧ (m c).2.healthy = c.healthy ∧
    ((m c).1 = (m c.healthy).1 ∨ ∃ e, (m c).1 = .error e ∧ e.IsFault)

/-- A handler hands a fault on, as a fault. -/
def Reraises (handler : PyError → Sql α) : Prop :=
  ∀ e, e.IsFault → ∃ e', e'.IsFault ∧ handler e = Effect.raise e'

/-! ## Inside a transaction -/

/-- A value runs no statement. -/
theorem FaultSafe.pure (a : α) : FaultSafe (pure a : Sql α) :=
  fun _ hc => ⟨⟨rfl, hc, rfl⟩, .inl ⟨rfl, rfl⟩⟩

/-- An error that is raised on any backend. -/
theorem FaultSafe.raise (e : PyError) : FaultSafe (Effect.raise e : Sql α) :=
  fun _ hc => ⟨⟨rfl, hc, rfl⟩, .inl ⟨rfl, rfl⟩⟩

/-- One program behind another: behind a fault the second does not run. -/
theorem FaultSafe.bind {m : Sql α} {f : α → Sql β} (hm : FaultSafe m) (hf : ∀ a, FaultSafe (f a)) :
    FaultSafe (m >>= f) := by
  intro c hc
  obtain ⟨⟨hcom, htx, hfs⟩, hcase⟩ := hm c hc
  rcases hh : m c.healthy with ⟨eh | ah, ch⟩ <;> rw [hh] at hcom htx hfs hcase
  · rw [Effect.bind_of_error hh]
    refine ⟨⟨hcom, htx, hfs⟩, ?_⟩
    rcases hcase with ⟨h₁, h₂⟩ | ⟨e, c', h, he⟩
    · rcases hmc : m c with ⟨r, c₁⟩
      rw [hmc] at h₁ h₂
      obtain rfl : r = .error eh := h₁
      exact .inl (by rw [Effect.bind_of_error hmc]; exact ⟨rfl, h₂⟩)
    · exact .inr ⟨e, c', Effect.bind_of_error h f, he⟩
  · rw [Effect.bind_of_ok hh]
    have hch : ch.healthy = ch := Connection.healthy_eq_self hfs
    obtain ⟨hnext, -⟩ := hf ah ch htx
    rw [hch] at hnext
    refine ⟨⟨hnext.1.trans hcom, hnext.2⟩, ?_⟩
    rcases hcase with ⟨h₁, h₂⟩ | ⟨e, c', h, he⟩
    · rcases hmc : m c with ⟨r, c₁⟩
      rw [hmc] at h₁ h₂
      obtain rfl : r = .ok ah := h₁
      obtain rfl : c₁.healthy = ch := h₂
      rw [Effect.bind_of_ok hmc]
      rcases (hf ah c₁ htx).2 with h | ⟨e, c', h, he, hcom', htx'⟩
      · exact .inl h
      · exact .inr ⟨e, c', h, he, hcom'.trans hcom, htx'⟩
    · exact .inr ⟨e, c', Effect.bind_of_error h f, he⟩

/-- A handler that hands faults on; every other error it may turn into a program of its own. -/
theorem FaultSafe.catching {m : Sql α} {handler : PyError → Sql α} (hm : FaultSafe m)
    (hh : ∀ e, FaultSafe (handler e)) (hr : Reraises handler) :
    FaultSafe (Effect.catching m handler) := by
  intro c hc
  obtain ⟨⟨hcom, htx, hfs⟩, hcase⟩ := hm c hc
  have hfault : (∃ e c', m c = (.error e, c') ∧ e.IsFault ∧ c'.committed = c.committed ∧
      c'.transaction.isSome) → ∃ e c', Effect.catching m handler c = (.error e, c') ∧ e.IsFault ∧
        c'.committed = c.committed ∧ c'.transaction.isSome := by
    rintro ⟨e, c', h, he, hrest⟩
    obtain ⟨e', he', hraise⟩ := hr e he
    exact ⟨e', c', by rw [Effect.catching_of_error h, hraise, Effect.raise_apply], he', hrest⟩
  rcases hhm : m c.healthy with ⟨eh | ah, ch⟩ <;> rw [hhm] at hcom htx hfs hcase
  · rw [Effect.catching_of_error hhm]
    have hch : ch.healthy = ch := Connection.healthy_eq_self hfs
    obtain ⟨hnext, -⟩ := hh eh ch htx
    rw [hch] at hnext
    refine ⟨⟨hnext.1.trans hcom, hnext.2⟩, ?_⟩
    rcases hcase with ⟨h₁, h₂⟩ | h
    · rcases hmc : m c with ⟨r, c₁⟩
      rw [hmc] at h₁ h₂
      obtain rfl : r = .error eh := h₁
      obtain rfl : c₁.healthy = ch := h₂
      rw [Effect.catching_of_error hmc]
      rcases (hh eh c₁ htx).2 with h | ⟨e, c', h, he, hcom', htx'⟩
      · exact .inl h
      · exact .inr ⟨e, c', h, he, hcom'.trans hcom, htx'⟩
    · exact .inr (hfault h)
  · rw [Effect.catching_of_ok hhm]
    refine ⟨⟨hcom, htx, hfs⟩, ?_⟩
    rcases hcase with ⟨h₁, h₂⟩ | h
    · rcases hmc : m c with ⟨r, c₁⟩
      rw [hmc] at h₁ h₂
      obtain rfl : r = .ok ah := h₁
      exact .inl (by rw [Effect.catching_of_ok hmc]; exact ⟨rfl, h₂⟩)
    · exact .inr (hfault h)

/-- The one place where a fault starts. -/
theorem FaultSafe.nextStatement : FaultSafe nextStatement := by
  intro c hc
  refine ⟨⟨rfl, hc, rfl⟩, ?_⟩
  obtain ⟨committed, transaction, faults⟩ := c
  match faults with
  | [] => exact .inl ⟨rfl, rfl⟩
  | false :: rest => exact .inl ⟨rfl, rfl⟩
  | true :: rest => exact .inr ⟨_, _, rfl, PyError.isFault_fault, rfl, hc⟩

/-- What a statement does once it was let through touches the working copy alone. -/
theorem FaultSafe.statement (act : Database → Except SqlError (α × Database)) :
    FaultSafe (statement act) := by
  rintro ⟨committed, transaction, faults⟩ hc
  obtain ⟨working, rfl⟩ := Option.isSome_iff_exists.mp hc
  refine ⟨?_, .inl ?_⟩ <;> cases h : act working <;>
    simp [Tile.statement, Connection.view, Connection.healthy, Connection.write, h]

/-- A statement of a transaction. -/
theorem FaultSafe.execute (act : Database → Except SqlError (α × Database)) :
    FaultSafe (execute act) :=
  FaultSafe.bind .nextStatement fun _ => .statement act

/-- One statement per row. -/
theorem FaultSafe.executeMany {ρ : Type}
    (act : ρ → Database → Except SqlError (Unit × Database)) :
    ∀ rows, FaultSafe (executeMany act rows)
  | [] => .pure ()
  | row :: rest => FaultSafe.bind (.execute (act row)) fun _ => .executeMany act rest

/-! ## Programs that only read -/

/-- A program that only reads may run inside a transaction. -/
theorem ReadSafe.faultSafe {m : Sql α} (hm : ReadSafe m) : FaultSafe m := by
  intro c hc
  obtain ⟨hhealthy, hstate, hcase⟩ := hm c
  refine ⟨by rw [hhealthy]; exact ⟨rfl, hc, rfl⟩, ?_⟩
  rcases hcase with h | ⟨e, h, he⟩
  · exact .inl ⟨h, hstate.trans hhealthy.symm⟩
  · refine .inr ⟨e, (m c).2, Prod.ext h rfl, he, ?_, ?_⟩
    · rw [← Connection.healthy_committed, hstate, Connection.healthy_committed]
    · rw [← Connection.healthy_transaction, hstate]
      exact hc

theorem ReadSafe.pure (a : α) : ReadSafe (pure a : Sql α) := fun _ => ⟨rfl, rfl, .inl rfl⟩

theorem ReadSafe.raise (e : PyError) : ReadSafe (Effect.raise e : Sql α) :=
  fun _ => ⟨rfl, rfl, .inl rfl⟩

theorem ReadSafe.lift (r : Except PyError α) : ReadSafe (Effect.lift fun _ => r : Sql α) :=
  fun _ => ⟨rfl, rfl, .inl rfl⟩

/-- One read behind another. -/
theorem ReadSafe.bind {m : Sql α} {f : α → Sql β} (hm : ReadSafe m) (hf : ∀ a, ReadSafe (f a)) :
    ReadSafe (m >>= f) := by
  intro c
  obtain ⟨hhealthy, hstate, hcase⟩ := hm c
  rcases hh : m c.healthy with ⟨eh | ah, ch⟩ <;> rw [hh] at hhealthy hcase
  · obtain rfl : ch = c.healthy := hhealthy
    rw [Effect.bind_of_error hh]
    rcases hmc : m c with ⟨e | a, c₁⟩ <;> rw [hmc] at hstate hcase
    · rw [Effect.bind_of_error hmc]
      exact ⟨rfl, hstate, by simpa using hcase⟩
    · simp at hcase
  · obtain rfl : ch = c.healthy := hhealthy
    rw [Effect.bind_of_ok hh]
    refine ⟨(hf ah c).1, ?_⟩
    rcases hmc : m c with ⟨e | a, c₁⟩ <;> rw [hmc] at hstate hcase
    · rw [Effect.bind_of_error hmc]
      obtain ⟨e', he', hfault⟩ : ∃ e', e = e' ∧ e'.IsFault := by simpa using hcase
      exact ⟨hstate, .inr ⟨e, rfl, he' ▸ hfault⟩⟩
    · obtain rfl : a = ah := by simpa using hcase
      rw [Effect.bind_of_ok hmc]
      obtain ⟨-, hnext, hcase'⟩ := hf a c₁
      rw [show c₁.healthy = c.healthy from hstate] at hnext hcase'
      exact ⟨hnext, hcase'⟩

/-- A single read: the write behind it puts back what is visible. -/
theorem ReadSafe.query (read : Database → α) : ReadSafe (query read) := by
  intro c
  obtain ⟨committed, transaction, faults⟩ := c
  have hwrite : ∀ fs, ({ committed, transaction, faults := fs } : Connection).write
      (({ committed, transaction, faults := fs } : Connection).view)
        = { committed, transaction, faults := fs } := by
    intro fs
    cases transaction <;> rfl
  refine ⟨hwrite [], ?_⟩
  match faults with
  | [] =>
    have hstate := congrArg Connection.healthy (hwrite [])
    exact ⟨hstate, .inl rfl⟩
  | false :: rest =>
    have hstate := congrArg Connection.healthy (hwrite rest)
    exact ⟨hstate, .inl rfl⟩
  | true :: rest => exact ⟨rfl, .inr ⟨_, rfl, PyError.isFault_fault⟩⟩

/-! ## Whole operations -/

/-- From outside any transaction: the operation ends outside one, an error of its own leaves the
database as it was, and a fault makes it raise over an unchanged database. -/
def AllOrNothing (m : Sql α) : Prop :=
  ∀ db, (∀ e, (m (.idle db)).1 = .error e → (m (.idle db)).2 = .idle db) ∧
    ∀ faults, (m { committed := db, faults }).2.transaction = none ∧
      (((m { committed := db, faults }).1 = (m (.idle db)).1 ∧
          (m { committed := db, faults }).2.committed = (m (.idle db)).2.committed) ∨
        ∃ e, (m { committed := db, faults }).1 = .error e ∧ e.IsFault ∧
          (m { committed := db, faults }).2.committed = db)

/-- **`immediate_transaction` on a healthy backend**: publish what the body worked out, or keep the
database. -/
theorem immediateTransaction_idle {body : Sql α} (h : FaultSafe body) (db : Database) :
    immediateTransaction body (.idle db) =
      match body (.within db db) with
      | (.ok a, c) => (.ok a, .idle c.view)
      | (.error e, _) => (.error e, .idle db) := by
  obtain ⟨hcom, htx, hfs⟩ := (h (.within db db) rfl).1
  have hbegin : beginImmediate (.idle db) = (.ok (), .within db db) := rfl
  rw [immediateTransaction, Effect.bind_of_ok hbegin]
  rcases hb : body (.within db db) with ⟨e | a, committed, transaction, faults⟩
  · rw [Connection.healthy_eq_self rfl, hb] at hcom hfs
    obtain rfl : committed = db := hcom
    obtain rfl : faults = [] := hfs
    rw [Effect.catching_of_error (Effect.bind_of_error hb _)]
    rfl
  · rw [Connection.healthy_eq_self rfl, hb] at hcom hfs
    obtain rfl : committed = db := hcom
    obtain rfl : faults = [] := hfs
    rw [Effect.catching_of_ok (Effect.bind_of_ok hb _)]

/-- A statement is let through or fails, and uses up its entry of the schedule at most. -/
theorem nextStatement_cases (c : Connection) : ∃ c', c'.healthy = c.healthy ∧
    (nextStatement c = (.ok (), c') ∨ nextStatement c = (.error .fault, c')) := by
  obtain ⟨committed, transaction, faults⟩ := c
  match faults with
  | [] => exact ⟨_, rfl, .inl rfl⟩
  | false :: rest => exact ⟨{ committed, transaction, faults := rest }, rfl, .inl rfl⟩
  | true :: rest => exact ⟨{ committed, transaction, faults := rest }, rfl, .inr rfl⟩

/-- The handler of `immediate_transaction`. -/
theorem rollback_raise (e : PyError) (c : Connection) :
    (do rollback; Effect.raise e : Sql α) c = (.error e, { c with transaction := none }) := rfl

/-- **A transaction is all-or-nothing.**  A fault at `BEGIN`, in the body or at `COMMIT` ends it
over the database it began with. -/
theorem AllOrNothing.immediateTransaction {body : Sql α} (h : FaultSafe body) :
    AllOrNothing (immediateTransaction body) := by
  intro db
  have hidle := immediateTransaction_idle h db
  refine ⟨fun e he => ?_, fun faults => ?_⟩
  · rcases hb : body (.within db db) with ⟨e' | a, c⟩ <;> rw [hidle, hb] at he ⊢
    simp at he
  obtain ⟨c₁, hc₁, hnext⟩ := nextStatement_cases { committed := db, faults }
  have hdb : c₁.committed = db := congrArg Connection.committed hc₁
  have htx : c₁.transaction = none := congrArg Connection.transaction hc₁
  rcases hnext with hnext | hnext
  case inr =>
    have hfail : Tile.immediateTransaction body { committed := db, faults } = (.error .fault, c₁) :=
      Effect.bind_of_error (Effect.bind_of_error hnext _) _
    rw [hfail]
    exact ⟨htx, .inr ⟨_, rfl, PyError.isFault_fault, hdb⟩⟩
  have hbegin : beginImmediate { committed := db, faults }
      = (.ok (), { c₁ with transaction := some c₁.committed }) :=
    Effect.bind_of_ok hnext _
  set c₂ : Connection := { c₁ with transaction := some c₁.committed } with hc₂
  have hhealthy : c₂.healthy = .within db db := by rw [hc₂, Connection.healthy, hdb]
  have hrun : Tile.immediateTransaction body { committed := db, faults } = _ :=
    Effect.bind_of_ok hbegin _
  obtain ⟨⟨hcom, -, hfs⟩, hcase⟩ := h c₂ rfl
  rw [hhealthy] at hcom hfs hcase
  rw [hrun, hidle]
  rcases hcase with ⟨h₁, h₂⟩ | ⟨e, c', hbody, he, hcom', -⟩
  · rcases hbody : body c₂ with ⟨e | a, c₃⟩ <;>
      rcases hb : body (.within db db) with ⟨e' | a', ch⟩ <;>
      rw [hbody, hb] at h₁ h₂ <;> simp at h₁
    · subst h₁
      rw [Effect.catching_of_error (Effect.bind_of_error hbody _), rollback_raise]
      refine ⟨rfl, .inl ⟨rfl, ?_⟩⟩
      rw [hb] at hcom
      exact (congrArg Connection.committed h₂).trans (hcom.trans hdb)
    · subst h₁
      have hview : c₃.view = ch.view := by
        rw [← Connection.healthy_view c₃, show c₃.healthy = ch from h₂]
      obtain ⟨c₄, hc₄, hcommit⟩ := nextStatement_cases c₃
      have hcom₄ : c₄.committed = db := by
        rw [hb] at hcom
        rw [← Connection.healthy_committed, hc₄, show c₃.healthy = ch from h₂, hcom, hdb]
      rcases hcommit with hcommit | hcommit
      · have hc : commit c₃ = (.ok (), { c₄ with committed := c₄.view, transaction := none }) :=
          Effect.bind_of_ok hcommit _
        rw [Effect.catching_of_ok ((Effect.bind_of_ok hbody _).trans (Effect.bind_of_ok hc _))]
        exact ⟨rfl, .inl ⟨rfl, (congrArg Connection.view hc₄).trans hview⟩⟩
      · have hc : commit c₃ = (.error .fault, c₄) := Effect.bind_of_error hcommit _
        rw [Effect.catching_of_error
            ((Effect.bind_of_ok hbody _).trans (Effect.bind_of_error hc _)), rollback_raise]
        exact ⟨rfl, .inr ⟨_, rfl, PyError.isFault_fault, hcom₄⟩⟩
  · rw [Effect.catching_of_error (Effect.bind_of_error hbody _), rollback_raise]
    exact ⟨rfl, .inr ⟨e, rfl, he, hcom'.trans hdb⟩⟩

/-- An operation that only reads is all-or-nothing without a transaction. -/
theorem ReadSafe.allOrNothing {m : Sql α} (hm : ReadSafe m) : AllOrNothing m := by
  intro db
  refine ⟨fun _ _ => (hm (.idle db)).1, fun faults => ?_⟩
  obtain ⟨hhealthy, hstate, hcase⟩ := hm { committed := db, faults }
  have hidle : m (.idle db) = m (Connection.healthy { committed := db, faults }) := rfl
  have hcom : (m { committed := db, faults }).2.committed = db := by
    rw [← Connection.healthy_committed, hstate]
    rfl
  refine ⟨?_, ?_⟩
  · rw [← Connection.healthy_transaction, hstate]
    rfl
  · rw [hidle, hhealthy]
    exact hcase.imp (fun h => ⟨h, hcom⟩) fun ⟨e, h, he⟩ => ⟨e, h, he, hcom⟩

/-- A handler that only renames errors, faults to faults, keeps an operation all-or-nothing. -/
theorem AllOrNothing.catching {m : Sql α} {handler : PyError → Sql α} (hm : AllOrNothing m)
    (hh : ∀ e, ∃ e', handler e = Effect.raise e' ∧ (e.IsFault → e'.IsFault)) :
    AllOrNothing (Effect.catching m handler) := by
  have hstate : ∀ c, (Effect.catching m handler c).2 = (m c).2 := by
    intro c
    rcases h : m c with ⟨e | a, c'⟩
    · obtain ⟨e', he', -⟩ := hh e
      rw [Effect.catching_of_error h, he', Effect.raise_apply]
    · rw [Effect.catching_of_ok h]
  have hsame : ∀ c c', (m c).1 = (m c').1 →
      (Effect.catching m handler c).1 = (Effect.catching m handler c').1 := by
    intro c c' h
    rcases hc : m c with ⟨e | a, d⟩ <;> rcases hc' : m c' with ⟨e' | a', d'⟩ <;>
      rw [hc, hc'] at h <;> simp at h <;> subst h
    · obtain ⟨e', he', -⟩ := hh e
      rw [Effect.catching_of_error hc, Effect.catching_of_error hc', he']
      rfl
    · rw [Effect.catching_of_ok hc, Effect.catching_of_ok hc']
  intro db
  obtain ⟨herror, hfaults⟩ := hm db
  refine ⟨fun e he => ?_, fun faults => ?_⟩
  · rw [hstate]
    rcases hc : m (.idle db) with ⟨e' | a, c⟩
    · have := herror e' (by rw [hc])
      rwa [hc] at this
    · rw [Effect.catching_of_ok hc] at he
      simp at he
  · obtain ⟨htx, hcase⟩ := hfaults faults
    rw [hstate, hstate]
    refine ⟨htx, hcase.imp (fun h => ⟨hsame _ _ h.1, h.2⟩) ?_⟩
    rintro ⟨e, h, he, hcom⟩
    obtain ⟨e', he', hfault⟩ := hh e
    refine ⟨e', ?_, hfault he, hcom⟩
    rcases hc : m { committed := db, faults } with ⟨r, c⟩
    rw [hc] at h
    obtain rfl : r = .error e := h
    rw [Effect.catching_of_error hc, he']
    rfl

/-- Translating errors renames a fault to a persistence error, which is one as well. -/
theorem AllOrNothing.translate {m : Sql α} (operation : StoreOperation) (hm : AllOrNothing m) :
    AllOrNothing (translateStoreErrors operation m) := by
  refine hm.catching fun e => ?_
  cases e with
  | store error => exact ⟨_, rfl, id⟩
  | backend cause =>
    refine ⟨_, rfl, fun h => ?_⟩
    match cause, h with
    | .sqlite .operational, _ => trivial

/-- The reply made of a result. -/
theorem AllOrNothing.map {m : Sql α} (f : α → β) (hm : AllOrNothing m) :
    AllOrNothing (f <$> m) := by
  have hmap : ∀ c, (f <$> m) c = ((m c).1.map f, (m c).2) := by
    intro c
    rcases h : m c with ⟨e | a, c'⟩
    · exact Effect.bind_of_error h _
    · exact Effect.bind_of_ok h _
  intro db
  obtain ⟨herror, hfaults⟩ := hm db
  refine ⟨fun e he => ?_, fun faults => ?_⟩
  · rw [hmap] at he ⊢
    cases h : (m (.idle db)).1 with
    | error e' => exact herror e' h
    | ok a =>
      rw [h] at he
      simp [Except.map] at he
  · simp only [hmap]
    obtain ⟨htx, hcase⟩ := hfaults faults
    refine ⟨htx, hcase.imp (fun h => ⟨by rw [h.1], h.2⟩) ?_⟩
    rintro ⟨e, h, hrest⟩
    exact ⟨e, by rw [h]; rfl, hrest⟩

/-! ## The statements and the operations of the store -/

/-- `_get_session` only reads. -/
theorem ReadSafe.getSessionRecord (sessionId : String) : ReadSafe (getSessionRecord sessionId) := by
  refine ReadSafe.bind (.query _) fun row => ?_
  cases row with
  | none => exact .raise _
  | some row => exact .lift _

/-- `_require_session` only reads. -/
theorem ReadSafe.requireSession (sessionId : String) : ReadSafe (requireSession sessionId) := by
  refine ReadSafe.bind (.query _) fun row => ?_
  cases row with
  | none => exact .raise _
  | some row => exact .pure _

/-- `_reject_existing_session` only reads. -/
theorem ReadSafe.rejectExistingSession (sessionId : String) :
    ReadSafe (rejectExistingSession sessionId) := by
  refine ReadSafe.bind (.query _) fun row => ?_
  cases row with
  | none => exact .pure _
  | some row => exact .raise _

/-- `_active_run_for_session` only reads. -/
theorem ReadSafe.activeRunForSession (sessionId : String) :
    ReadSafe (activeRunForSession sessionId) := by
  refine ReadSafe.bind (.query _) fun row => ?_
  cases row with
  | none => exact .pure _
  | some row => exact ReadSafe.bind (.lift _) fun _ => .pure _

/-- `_reject_active_run` reads nothing. -/
theorem ReadSafe.rejectActiveRun (active : Option ActiveRun) :
    ReadSafe (rejectActiveRun active) := by
  cases active with
  | none => exact .pure _
  | some active => exact .raise _

/-- Of the errors of the insertion the handler takes only the integrity error for itself. -/
theorem FaultSafe.insertRun (record : ActiveRun) : FaultSafe (insertRun record) := by
  refine FaultSafe.catching (.execute _) (fun e => ?_) fun e he => ?_
  · split
    · refine FaultSafe.bind (ReadSafe.query _).faultSafe fun found => ?_
      split
      · exact .raise _
      · exact .raise _
    · exact .raise _
  · match e, he with
    | .backend (.sqlite .operational), _ => exact ⟨_, PyError.isFault_fault, rfl⟩
    | .store (.persistence operation (.sqlite .operational)), _ =>
      exact ⟨.store (.persistence operation (.sqlite .operational)), trivial, rfl⟩

/-- An outcome that does not serialize raises before the update. -/
theorem FaultSafe.finalizeActiveRun (record : TerminalRun) :
    FaultSafe (finalizeActiveRun record) := by
  unfold Tile.finalizeActiveRun
  split
  · exact .raise _
  · refine FaultSafe.bind (.execute _) fun rowCount => ?_
    split
    · exact .raise _
    · exact .pure _

/-- An empty delta runs no statement. -/
theorem FaultSafe.insertHistoryDelta (uuid : Nat → String) (run : TerminalRun)
    (items : List ConversationItem) : FaultSafe (insertHistoryDelta uuid run items) := by
  unfold Tile.insertHistoryDelta
  split
  · exact .pure _
  · exact FaultSafe.bind (ReadSafe.query _).faultSafe fun _ => .executeMany _ _

/-- A read and a write. -/
theorem FaultSafe.touchSession (run : TerminalRun) : FaultSafe (touchSession run) :=
  FaultSafe.bind (ReadSafe.getSessionRecord _).faultSafe fun _ => .execute _

variable [JsonParser]

/-- `_get_run` only reads. -/
theorem ReadSafe.getRunRecord (sessionId runId : String) :
    ReadSafe (getRunRecord sessionId runId) := by
  refine ReadSafe.bind (.query _) fun row => ?_
  cases row with
  | none => exact .raise _
  | some row => exact .lift _

/-- `_history_for_session` only reads. -/
theorem ReadSafe.historyForSession (sessionId : String) :
    ReadSafe (historyForSession sessionId) :=
  ReadSafe.bind (.query _) fun _ => .lift _

/-- **Every call is all-or-nothing.** -/
theorem Call.allOrNothing (call : Call) (ambient : Ambient) :
    AllOrNothing (call.method ambient) := by
  cases call with
  | createSession sessionId =>
    refine AllOrNothing.map _ (.translate _ (.catching (.immediateTransaction ?_) fun e => ?_))
    · exact FaultSafe.bind (.execute _) fun _ => .pure _
    · match e with
      | .backend (.sqlite .integrity) => exact ⟨_, rfl, False.elim⟩
      | .backend (.sqlite .operational) | .backend (.value _) | .store _ => exact ⟨_, rfl, id⟩
  | getSession sessionId => exact .map _ (.translate _ (ReadSafe.getSessionRecord _).allOrNothing)
  | listSessions =>
    exact .map _ (.translate _ (ReadSafe.bind (.query _) fun _ => .lift _).allOrNothing)
  | startRun sessionId runId prompt model provider =>
    refine .map _ (.translate _ (.immediateTransaction ?_))
    refine FaultSafe.bind (ReadSafe.requireSession _).faultSafe fun _ => ?_
    refine FaultSafe.bind (ReadSafe.activeRunForSession _).faultSafe fun active => ?_
    refine FaultSafe.bind (ReadSafe.rejectActiveRun active).faultSafe fun _ => ?_
    refine FaultSafe.bind (ReadSafe.historyForSession _).faultSafe fun _ => ?_
    exact FaultSafe.bind (.insertRun _) fun _ => .pure _
  | finishRun sessionId runId outcome historyDelta =>
    refine .map _ (.translate _ (.immediateTransaction ?_))
    refine FaultSafe.bind (ReadSafe.getRunRecord _ _).faultSafe fun record => ?_
    cases record with
    | terminal run => exact .raise _
    | active run =>
      refine FaultSafe.bind (.finalizeActiveRun _) fun _ => ?_
      refine FaultSafe.bind (.insertHistoryDelta _ _ _) fun _ => ?_
      exact FaultSafe.bind (.touchSession _) fun _ => .pure _
  | abortActiveRun sessionId =>
    refine .map _ (.translate _ (.immediateTransaction ?_))
    refine FaultSafe.bind (ReadSafe.requireSession _).faultSafe fun _ => ?_
    refine FaultSafe.bind (ReadSafe.activeRunForSession _).faultSafe fun active => ?_
    cases active with
    | none => exact .pure _
    | some active =>
      refine FaultSafe.bind (.finalizeActiveRun _) fun _ => ?_
      exact FaultSafe.bind (.touchSession _) fun _ => .pure _
  | getHistory sessionId =>
    exact .map _ (.translate _
      (ReadSafe.bind (.requireSession _) fun _ => .historyForSession _).allOrNothing)
  | getRun sessionId runId => exact .map _ (.translate _ (ReadSafe.getRunRecord _ _).allOrNothing)
  | listRuns sessionId =>
    exact .map _ (.translate _ (ReadSafe.bind (.requireSession _) fun _ =>
      ReadSafe.bind (.query _) fun _ => .lift _).allOrNothing)
  | forkSession source target =>
    refine .map _ (.translate _ (.immediateTransaction ?_))
    refine FaultSafe.bind (ReadSafe.requireSession _).faultSafe fun _ => ?_
    refine FaultSafe.bind (ReadSafe.rejectExistingSession _).faultSafe fun _ => ?_
    refine FaultSafe.bind (.execute _) fun _ => ?_
    refine FaultSafe.bind (ReadSafe.historyForSession _).faultSafe fun _ => ?_
    exact FaultSafe.bind (.executeMany _ _) fun _ => .pure _

/-- The same surroundings on a healthy backend. -/
def Ambient.healthy (ambient : Ambient) : Ambient := { ambient with faults := [] }

/-- On a healthy backend a call runs its method on an idle connection. -/
theorem Call.run_healthy (call : Call) (ambient : Ambient) (db : Database) :
    call.run ambient.healthy db
      = ((call.method ambient (.idle db)).1, (call.method ambient (.idle db)).2.committed) := by
  cases call <;> rfl

/-- **A call behaves as on a healthy backend, or raises a fault over an unchanged database.** -/
theorem Call.run_eq_healthy_or_fault (call : Call) (ambient : Ambient) (db : Database) :
    call.run ambient db = call.run ambient.healthy db ∨
      ∃ e, call.run ambient db = (.error e, db) ∧ e.IsFault := by
  rw [Call.run_healthy]
  rcases ((call.allOrNothing ambient db).2 ambient.faults).2 with ⟨h₁, h₂⟩ | ⟨e, h₁, he, h₂⟩
  · exact .inl (Prod.ext h₁ h₂)
  · exact .inr ⟨e, Prod.ext h₁ h₂, he⟩

/-- **An error leaves the database as it was.** -/
theorem Call.run_error {call : Call} {ambient : Ambient} {db db' : Database} {e : PyError}
    (h : call.run ambient db = (.error e, db')) : db' = db := by
  rcases call.run_eq_healthy_or_fault ambient db with hrun | ⟨e', hrun, -⟩
  · rw [h, Call.run_healthy] at hrun
    obtain ⟨h₁, h₂⟩ := Prod.mk.inj hrun
    rw [h₂, (call.allOrNothing ambient db).1 e h₁.symm]
  · rw [h] at hrun
    exact (Prod.mk.inj hrun).2

end Tile
