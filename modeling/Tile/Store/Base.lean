import Tile.Library.Effect
import Tile.Store.Schema

/-!
# Store/Base — store errors, and a connection that runs statements

`Sql` is the language of the store's methods: statements on one connection, which raise domain
errors or backend errors.  Outside a transaction a statement acts on the committed database; inside
one, on the transaction's copy, which `COMMIT` publishes and `ROLLBACK` drops.  `faults` schedules,
statement by statement, the operational errors of the backend (a lock, a full disk).
-/

namespace Tile

/-- The operation a persistence error names. -/
inductive StoreOperation where
  | createSession | getSession | listSessions | startRun | finishRun | abortActiveRun
  | getHistory | getRun | listRuns | forkSession
  deriving Repr, DecidableEq

/-- The values of `StoreOperation`. -/
def StoreOperation.name : StoreOperation → String
  | .createSession => "create_session"
  | .getSession => "get_session"
  | .listSessions => "list_sessions"
  | .startRun => "start_run"
  | .finishRun => "finish_run"
  | .abortActiveRun => "abort_active_run"
  | .getHistory => "get_history"
  | .getRun => "get_run"
  | .listRuns => "list_runs"
  | .forkSession => "fork_session"

/-- What the backend raises: a `sqlite3.Error`, or a `ValueError` of a decoder or encoder. -/
inductive BackendError where
  | sqlite (error : SqlError)
  | value (message : String)
  deriving Repr, DecidableEq

/-- The errors of persistent domain operations. -/
inductive StoreError where
  | activeRun (sessionId : String)
  | runAlreadyEnded (runId : String)
  | sessionAlreadyExists (sessionId : String)
  | sessionNotFound (sessionId : String)
  | runAlreadyExists (runId : String)
  | runNotFound (runId sessionId : String)
  | persistence (operation : StoreOperation) (cause : BackendError)
  | invalidHistory (stored payload : Role)
  | endedWithoutRecord (runId : String)
  deriving Repr, DecidableEq

/-- Whatever a store method may raise before its errors are translated. -/
inductive PyError where
  | store (error : StoreError)
  | backend (error : BackendError)
  deriving Repr, DecidableEq

/-- `str` of the exception; SQLite's own text names the constraint as well. -/
def BackendError.message : BackendError → String
  | .sqlite .integrity => "constraint failed"
  | .sqlite .operational => "database is locked"
  | .value message => message

/-- The class the error is raised as. -/
def StoreError.typeName : StoreError → String
  | .activeRun _ => "ActiveRunError"
  | .runAlreadyEnded _ => "RunAlreadyEndedError"
  | .sessionAlreadyExists _ => "SessionAlreadyExistsError"
  | .sessionNotFound _ => "SessionNotFoundError"
  | .runAlreadyExists _ => "RunAlreadyExistsError"
  | .runNotFound _ _ => "RunNotFoundError"
  | .persistence _ _ => "StorePersistenceError"
  | .invalidHistory _ _ => "InvalidHistoryError"
  | .endedWithoutRecord _ => "StoreError"

/-- The text a store error is raised with. -/
def StoreError.message : StoreError → String
  | .activeRun sessionId => s!"Session already has an active run: {sessionId}"
  | .runAlreadyEnded runId => s!"Run already ended: {runId}"
  | .sessionAlreadyExists sessionId => s!"Session already exists: {sessionId}"
  | .sessionNotFound sessionId => s!"Unknown session: {sessionId}"
  | .runAlreadyExists runId => s!"Run already exists: {runId}"
  | .runNotFound runId sessionId => s!"Unknown run '{runId}' in session '{sessionId}'."
  | .persistence operation cause =>
    s!"Store operation '{operation.name}' failed: {cause.message}"
  | .invalidHistory stored payload =>
    s!"Stored history role '{stored.name}' contradicts payload role '{payload.name}'."
  | .endedWithoutRecord runId => s!"Run '{runId}' ended without a terminal record."

/-! ## Connections -/

/-- One SQLite connection.  The head of `faults` says whether the next statement fails. -/
structure Connection where
  committed : Database
  transaction : Option Database := none
  faults : List Bool := []
  deriving DecidableEq

/-- A program over a connection. -/
abbrev Sql (α : Type) := Effect Connection PyError α

namespace Connection

/-- A connection outside any transaction, on a healthy backend. -/
abbrev idle (db : Database) : Connection := { committed := db }

/-- A connection inside a transaction, on a healthy backend. -/
abbrev within (db working : Database) : Connection :=
  { committed := db, transaction := some working }

/-- The same connection once the backend is healthy. -/
def healthy (c : Connection) : Connection := { c with faults := [] }

/-- The database a statement of this connection sees. -/
def view (c : Connection) : Database := c.transaction.getD c.committed

/-- The connection after a statement left `db`. -/
def write (c : Connection) (db : Database) : Connection :=
  match c.transaction with
  | some _ => { c with transaction := some db }
  | none => { c with committed := db }

end Connection

/-- An operational error of the backend, as raised or as translated. -/
def PyError.IsFault : PyError → Prop
  | .backend (.sqlite .operational) => True
  | .store (.persistence _ (.sqlite .operational)) => True
  | _ => False

/-- How a statement of an unhealthy backend fails. -/
def PyError.fault : PyError := .backend (.sqlite .operational)

theorem PyError.isFault_fault : PyError.fault.IsFault := trivial

/-- Use up the schedule's next entry; fail when it says so. -/
def nextStatement : Sql Unit := fun c =>
  match c.faults with
  | true :: rest => (.error .fault, { c with faults := rest })
  | _ :: rest => (.ok (), { c with faults := rest })
  | [] => (.ok (), c)

/-- Run one statement against what the connection sees. -/
def statement {α : Type} (act : Database → Except SqlError (α × Database)) : Sql α := fun c =>
  match act c.view with
  | .ok (a, db) => (.ok a, c.write db)
  | .error e => (.error (.backend (.sqlite e)), c)

/-- One statement, which may fail before it does anything. -/
def execute {α : Type} (act : Database → Except SqlError (α × Database)) : Sql α := do
  nextStatement
  statement act

/-- A statement that only reads. -/
def query {α : Type} (read : Database → α) : Sql α := execute fun db => .ok (read db, db)

/-- `executemany`. -/
def executeMany {ρ : Type} (act : ρ → Database → Except SqlError (Unit × Database)) :
    List ρ → Sql Unit
  | [] => pure ()
  | row :: rest => do
    execute (act row)
    executeMany act rest

/-! ## `immediate_transaction` -/

/-- `BEGIN IMMEDIATE`: the transaction works on a copy. -/
def beginImmediate : Sql Unit := do
  nextStatement
  Effect.modify fun c => { c with transaction := some c.committed }

/-- `COMMIT` publishes the working copy. -/
def commit : Sql Unit := do
  nextStatement
  Effect.modify fun c => { c with committed := c.view, transaction := none }

/-- `ROLLBACK` drops it, and does not fail. -/
def rollback : Sql Unit := Effect.modify fun c => { c with transaction := none }

/-- Run a block inside an immediate SQLite write transaction. -/
def immediateTransaction {α : Type} (body : Sql α) : Sql α := do
  beginImmediate
  Effect.catching
    (do
      let result ← body
      commit
      return result)
    fun error => do
      rollback
      Effect.raise error

/-- `_translate_store_errors`: keep domain errors, translate backend and decoding failures. -/
def translateStoreErrors {α : Type} (operation : StoreOperation) (body : Sql α) : Sql α :=
  Effect.catching body fun
    | .store error => Effect.raise (.store error)
    | .backend cause => Effect.raise (.store (.persistence operation cause))

end Tile
