import Tile.Store.Lifecycle

/-!
# Store/Recovery — a failed call leaves no trace

The schedule of faults has one entry for each statement, `BEGIN` and `COMMIT` among them, so a
schedule that fails at its `k`-th entry is a failure point.  `Scheduled` accounts for the entries a
program used up: **with none of them failing it did what it does on a healthy backend, and with one
failing it raised a fault**.  Joined with `AllOrNothing`, this says what a failure at any point
leaves behind: nothing, on a connection that is as good as new (`failed_call_leaves_no_trace`).
-/

namespace Tile

variable {α β : Type}

/-- The program used up one entry for each statement it ran, and raised a fault exactly when one of
them failed. -/
def Scheduled (m : Sql α) : Prop :=
  ∀ c : Connection, ∃ used, c.faults = used ++ (m c).2.faults ∧
    ((true ∉ used ∧ (m c).1 = (m c.healthy).1 ∧ (m c).2.healthy = (m c.healthy).2) ∨
      true ∈ used ∧ ∃ e, (m c).1 = .error e ∧ e.IsFault)

namespace Scheduled

/-! ## Composition -/

/-- A program that runs no statement. -/
theorem of_frame {m : Sql α} (h : ∀ c, (m c).2.faults = c.faults ∧ (m c).1 = (m c.healthy).1 ∧
    (m c).2.healthy = (m c.healthy).2) : Scheduled m := by
  intro c
  obtain ⟨hfaults, hcase⟩ := h c
  exact ⟨[], by rw [hfaults]; rfl, .inl ⟨by simp, hcase⟩⟩

/-- A value runs no statement. -/
protected theorem pure (a : α) : Scheduled (pure a : Sql α) := of_frame fun _ => ⟨rfl, rfl, rfl⟩

/-- An error of the store's own runs no statement. -/
protected theorem raise (e : PyError) : Scheduled (Effect.raise e : Sql α) :=
  of_frame fun _ => ⟨rfl, rfl, rfl⟩

/-- Decoding a row runs no statement. -/
protected theorem lift (r : Except PyError α) : Scheduled (Effect.lift fun _ => r : Sql α) :=
  of_frame fun _ => ⟨rfl, rfl, rfl⟩

/-- One program behind another: behind a fault the second does not run. -/
theorem bind {m : Sql α} {f : α → Sql β} (hm : Scheduled m) (hf : ∀ a, Scheduled (f a)) :
    Scheduled (m >>= f) := by
  intro c
  obtain ⟨used, hused, hcase⟩ := hm c
  rcases hmc : m c with ⟨e | a, c₁⟩ <;> rw [hmc] at hused hcase
  · rw [Effect.bind_of_error hmc]
    refine ⟨used, hused, hcase.imp ?_ fun h => by simpa using h⟩
    rintro ⟨hnone, h₁, h₂⟩
    rw [Effect.bind_of_error (Prod.ext h₁.symm h₂.symm : m c.healthy = (.error e, c₁.healthy))]
    exact ⟨hnone, rfl, rfl⟩
  · rw [Effect.bind_of_ok hmc]
    obtain ⟨hnone, h₁, h₂⟩ := hcase.resolve_right (by simp)
    rw [Effect.bind_of_ok (Prod.ext h₁.symm h₂.symm : m c.healthy = (.ok a, c₁.healthy))]
    obtain ⟨used', hused', hcase'⟩ := hf a c₁
    refine ⟨used ++ used', by rw [hused, hused', List.append_assoc], ?_⟩
    simpa [hnone] using hcase'

/-- A handler that hands faults on. -/
theorem catching {m : Sql α} {handler : PyError → Sql α} (hm : Scheduled m)
    (hh : ∀ e, Scheduled (handler e))
    (hr : ∀ e, e.IsFault → ∀ c, ∃ e', (handler e c).1 = .error e' ∧ e'.IsFault) :
    Scheduled (Effect.catching m handler) := by
  intro c
  obtain ⟨used, hused, hcase⟩ := hm c
  rcases hmc : m c with ⟨e | a, c₁⟩ <;> rw [hmc] at hused hcase
  · rw [Effect.catching_of_error hmc]
    obtain ⟨used', hused', hcase'⟩ := hh e c₁
    refine ⟨used ++ used', by rw [hused, hused', List.append_assoc], ?_⟩
    rcases hcase with ⟨hnone, h₁, h₂⟩ | ⟨hsome, e', h, he'⟩
    · rw [Effect.catching_of_error
        (Prod.ext h₁.symm h₂.symm : m c.healthy = (.error e, c₁.healthy))]
      simpa [hnone] using hcase'
    · obtain rfl : e = e' := by simpa using h
      exact .inr ⟨List.mem_append_left _ hsome, hr e he' c₁⟩
  · rw [Effect.catching_of_ok hmc]
    obtain ⟨hnone, h₁, h₂⟩ := hcase.resolve_right (by simp)
    rw [Effect.catching_of_ok (Prod.ext h₁.symm h₂.symm : m c.healthy = (.ok a, c₁.healthy))]
    exact ⟨used, hused, .inl ⟨hnone, rfl, rfl⟩⟩

/-- The reply made of a result runs no statement. -/
theorem map {m : Sql α} (f : α → β) (hm : Scheduled m) : Scheduled (f <$> m) :=
  hm.bind fun _ => .pure _

/-! ## Statements -/

/-- A statement uses up one entry, and fails if that says so. -/
theorem nextStatement : Scheduled nextStatement := by
  rintro ⟨committed, transaction, faults⟩
  cases faults with
  | nil => exact ⟨[], rfl, .inl ⟨by simp, rfl, rfl⟩⟩
  | cons fails rest =>
    refine ⟨[fails], by cases fails <;> rfl, ?_⟩
    cases fails with
    | false => exact .inl ⟨by simp, rfl, rfl⟩
    | true => exact .inr ⟨by simp, _, rfl, PyError.isFault_fault⟩

/-- What a statement does once it was let through uses up nothing. -/
theorem statement (act : Database → Except SqlError (α × Database)) :
    Scheduled (statement act) := by
  refine of_frame fun c => ?_
  obtain ⟨committed, transaction, faults⟩ := c
  cases transaction with
  | none => cases h : act committed <;>
      simp [Tile.statement, Connection.view, Connection.healthy, Connection.write, h]
  | some working => cases h : act working <;>
      simp [Tile.statement, Connection.view, Connection.healthy, Connection.write, h]

/-- One entry, and then what the statement does. -/
theorem execute (act : Database → Except SqlError (α × Database)) : Scheduled (execute act) :=
  nextStatement.bind fun _ => .statement act

/-- A read is a statement. -/
theorem query (read : Database → α) : Scheduled (query read) := .execute _

/-- One entry for each row. -/
theorem executeMany {ρ : Type} (act : ρ → Database → Except SqlError (Unit × Database)) :
    ∀ rows, Scheduled (executeMany act rows)
  | [] => .pure ()
  | row :: rest => (execute (act row)).bind fun _ => executeMany act rest

/-- `BEGIN` and `COMMIT` have entries of their own; `ROLLBACK` has none and hands the error on. -/
theorem immediateTransaction {body : Sql α} (h : Scheduled body) :
    Scheduled (immediateTransaction body) := by
  have hbegin : Scheduled beginImmediate :=
    nextStatement.bind fun _ => of_frame fun _ => ⟨rfl, rfl, rfl⟩
  have hcommit : Scheduled commit :=
    nextStatement.bind fun _ => of_frame fun _ => ⟨rfl, rfl, rfl⟩
  have hrollback : Scheduled rollback := of_frame fun _ => ⟨rfl, rfl, rfl⟩
  refine hbegin.bind fun _ => catching (h.bind fun _ => hcommit.bind fun _ => .pure _)
    (fun e => hrollback.bind fun _ => .raise e) fun e he c => ?_
  exact ⟨e, by rw [rollback_raise], he⟩

/-- A handler that only renames errors, faults to faults. -/
theorem translating {m : Sql α} {handler : PyError → Sql α} (hm : Scheduled m)
    (hh : ∀ e, ∃ e', handler e = Effect.raise e' ∧ (e.IsFault → e'.IsFault)) :
    Scheduled (Effect.catching m handler) := by
  refine hm.catching (fun e => ?_) fun e he c => ?_
  · obtain ⟨e', he', -⟩ := hh e
    exact he' ▸ .raise e'
  · obtain ⟨e', he', hfault⟩ := hh e
    exact ⟨e', by rw [he', Effect.raise_apply], hfault he⟩

/-- A fault is renamed to a persistence error, which is one as well. -/
theorem translate {m : Sql α} (operation : StoreOperation) (hm : Scheduled m) :
    Scheduled (translateStoreErrors operation m) := by
  refine hm.translating fun e => ?_
  cases e with
  | store error => exact ⟨_, rfl, id⟩
  | backend cause =>
    refine ⟨_, rfl, fun h => ?_⟩
    match cause, h with
    | .sqlite .operational, _ => trivial

/-! ### The statements of the store -/

/-- A session that is missing, or a row that does not decode, is an error but no fault. -/
theorem getSessionRecord (sessionId : String) : Scheduled (getSessionRecord sessionId) := by
  refine (query _).bind fun row => ?_
  cases row with
  | none => exact .raise _
  | some row => exact .lift _

/-- A missing session is an error, but no fault. -/
theorem requireSession (sessionId : String) : Scheduled (requireSession sessionId) := by
  refine (query _).bind fun row => ?_
  cases row with
  | none => exact .raise _
  | some row => exact .pure _

/-- A session that exists is an error, but no fault. -/
theorem rejectExistingSession (sessionId : String) :
    Scheduled (rejectExistingSession sessionId) := by
  refine (query _).bind fun row => ?_
  cases row with
  | none => exact .pure _
  | some row => exact .raise _

/-- An active row that does not decode is an error, but no fault. -/
theorem activeRunForSession (sessionId : String) : Scheduled (activeRunForSession sessionId) := by
  refine (query _).bind fun row => ?_
  cases row with
  | none => exact .pure _
  | some row => exact (Scheduled.lift _).bind fun _ => .pure _

/-- An active run is an error, but no fault; nothing is read for it. -/
theorem rejectActiveRun (active : Option ActiveRun) : Scheduled (rejectActiveRun active) := by
  cases active with
  | none => exact .pure _
  | some active => exact .raise _

/-- The handler looks for the run again, which is a statement too. -/
theorem insertRun (record : ActiveRun) : Scheduled (insertRun record) := by
  refine (execute _).catching (fun e => ?_) fun e he c => ?_
  · split
    · refine (query _).bind fun found => ?_
      split
      · exact .raise _
      · exact .raise _
    · exact .raise _
  · match e, he with
    | .backend (.sqlite .operational), _ => exact ⟨_, rfl, PyError.isFault_fault⟩
    | .store (.persistence operation (.sqlite .operational)), _ => exact ⟨_, rfl, trivial⟩

/-- An outcome that does not serialize is an error before the update has used its entry. -/
theorem finalizeActiveRun (record : TerminalRun) : Scheduled (finalizeActiveRun record) := by
  unfold Tile.finalizeActiveRun
  split
  · exact .raise _
  · refine (execute _).bind fun rowCount => ?_
    split
    · exact .raise _
    · exact .pure _

/-- An empty delta uses up nothing; otherwise the position is read first. -/
theorem insertHistoryDelta (uuid : Nat → String) (run : TerminalRun)
    (items : List ConversationItem) : Scheduled (insertHistoryDelta uuid run items) := by
  unfold Tile.insertHistoryDelta
  split
  · exact .pure _
  · exact (query _).bind fun _ => .executeMany _ _

/-- The session is read, then written. -/
theorem touchSession (run : TerminalRun) : Scheduled (touchSession run) :=
  (getSessionRecord _).bind fun _ => .execute _

end Scheduled

/-! ## Operations -/

section Parser

variable [JsonParser]

/-- A row that does not decode is an error, but no fault. -/
theorem Scheduled.getRunRecord (sessionId runId : String) :
    Scheduled (Tile.getRunRecord sessionId runId) := by
  refine (Scheduled.query _).bind fun row => ?_
  cases row with
  | none => exact .raise _
  | some row => exact .lift _

/-- The rows are read in one statement and decoded after it. -/
theorem Scheduled.historyForSession (sessionId : String) :
    Scheduled (Tile.historyForSession sessionId) :=
  (Scheduled.query _).bind fun _ => .lift _

/-- **Every operation of the store accounts for its statements.** -/
theorem Call.scheduled (call : Call) (ambient : Ambient) : Scheduled (call.method ambient) := by
  cases call with
  | createSession sessionId =>
    refine .map _ (.translate _ (.translating (.immediateTransaction ?_) fun e => ?_))
    · exact (Scheduled.execute _).bind fun _ => .pure _
    · match e with
      | .backend (.sqlite .integrity) => exact ⟨_, rfl, False.elim⟩
      | .backend (.sqlite .operational) | .backend (.value _) | .store _ => exact ⟨_, rfl, id⟩
  | getSession sessionId => exact .map _ (.translate _ (.getSessionRecord _))
  | listSessions =>
    exact .map _ (.translate _ ((Scheduled.query _).bind fun _ => .lift _))
  | startRun sessionId runId prompt model provider =>
    refine .map _ (.translate _ (.immediateTransaction ?_))
    refine (Scheduled.requireSession _).bind fun _ => ?_
    refine (Scheduled.activeRunForSession _).bind fun active => ?_
    refine (Scheduled.rejectActiveRun active).bind fun _ => ?_
    refine (Scheduled.historyForSession _).bind fun _ => ?_
    exact (Scheduled.insertRun _).bind fun _ => .pure _
  | finishRun sessionId runId outcome historyDelta =>
    refine .map _ (.translate _ (.immediateTransaction ?_))
    refine (Scheduled.getRunRecord _ _).bind fun record => ?_
    cases record with
    | terminal run => exact .raise _
    | active run =>
      refine (Scheduled.finalizeActiveRun _).bind fun _ => ?_
      refine (Scheduled.insertHistoryDelta _ _ _).bind fun _ => ?_
      exact (Scheduled.touchSession _).bind fun _ => .pure _
  | abortActiveRun sessionId =>
    refine .map _ (.translate _ (.immediateTransaction ?_))
    refine (Scheduled.requireSession _).bind fun _ => ?_
    refine (Scheduled.activeRunForSession _).bind fun active => ?_
    cases active with
    | none => exact .pure _
    | some active =>
      refine (Scheduled.finalizeActiveRun _).bind fun _ => ?_
      exact (Scheduled.touchSession _).bind fun _ => .pure _
  | getHistory sessionId =>
    exact .map _ (.translate _
      ((Scheduled.requireSession _).bind fun _ => .historyForSession _))
  | getRun sessionId runId => exact .map _ (.translate _ (.getRunRecord _ _))
  | listRuns sessionId =>
    exact .map _ (.translate _ ((Scheduled.requireSession _).bind fun _ =>
      (Scheduled.query _).bind fun _ => .lift _))
  | forkSession source target =>
    refine .map _ (.translate _ (.immediateTransaction ?_))
    refine (Scheduled.requireSession _).bind fun _ => ?_
    refine (Scheduled.rejectExistingSession _).bind fun _ => ?_
    refine (Scheduled.execute _).bind fun _ => ?_
    refine (Scheduled.historyForSession _).bind fun _ => ?_
    exact (Scheduled.executeMany _ _).bind fun _ => .pure _

/-- **A call that failed left no trace.**  The call runs on a connection to `db`, which need not
be one the store wrote, so a row that does not decode is a failure point like any other.  A
statement that fails makes the call raise; an error of any kind leaves the connection outside a
transaction and the database, which every other connection reads, as it was; and a later call runs
on that connection, once the backend is healthy again, as on one where nothing was attempted. -/
theorem failed_call_leaves_no_trace (call : Call) (ambient : Ambient) (db : Database)
    (faults : List Bool) :
    ∃ used, faults = used ++ (call.method ambient { committed := db, faults }).2.faults ∧
      (true ∈ used →
        ∃ e, (call.method ambient { committed := db, faults }).1 = .error e ∧ e.IsFault) ∧
      (true ∉ used →
        (call.method ambient { committed := db, faults }).1
            = (call.method ambient (.idle db)).1 ∧
          (call.method ambient { committed := db, faults }).2.committed
            = (call.method ambient (.idle db)).2.committed) ∧
      (call.method ambient { committed := db, faults }).2.transaction = none ∧
      ∀ e, (call.method ambient { committed := db, faults }).1 = .error e →
        (call.method ambient { committed := db, faults }).2.committed = db ∧
          ∀ (next : Call) (later : Ambient),
            next.method later (call.method ambient { committed := db, faults }).2.healthy
              = next.method later (.idle db) := by
  set c : Connection := { committed := db, faults } with hc
  obtain ⟨used, hused, hcase⟩ := call.scheduled ambient c
  obtain ⟨herror, hfaults⟩ := call.allOrNothing ambient db
  obtain ⟨htx, hresult⟩ := hfaults faults
  refine ⟨used, hused, fun hfail => ?fails, fun hnone => ?healthy, htx, fun e he => ?error⟩
  case fails => exact (hcase.resolve_left fun h => h.1 hfail).2
  case healthy =>
    obtain ⟨-, h₁, h₂⟩ := hcase.resolve_right fun h => hnone h.1
    exact ⟨h₁, (congrArg Connection.committed h₂ :)⟩
  case error =>
    have hcom : (call.method ambient c).2.committed = db := by
      rcases hresult with ⟨h₁, h₂⟩ | ⟨-, -, -, h⟩
      · rw [h₂, herror e (h₁.symm.trans he)]
      · exact h
    have hidle : (call.method ambient c).2.healthy = .idle db := by
      rw [Connection.healthy, hcom, htx]
    exact ⟨hcom, fun next later => by rw [hidle]⟩

end Parser

end Tile
