import Tile.Store.Models

/-!
# Store/Schema — the three tables and the statements on them

The database is three tables of rows in insertion order.  A statement that would break a primary
key, a foreign key, a check or a unique index raises an integrity error and changes nothing.
-/

namespace Tile

/-- A row of the table `sessions`. -/
structure SessionRow where
  id : String
  createdAt : Timestamp
  updatedAt : Timestamp
  deriving Repr, DecidableEq

/-- A row of the table `runs`. -/
structure RunRow where
  id : String
  sessionId : String
  prompt : String
  status : RunStatus
  startedAt : Timestamp
  endedAt : Option Timestamp
  model : String
  provider : String
  outcomeJson : Option Json
  deriving Repr, DecidableEq

/-- A row of the table `history_items`. -/
structure HistoryRow where
  id : String
  sessionId : String
  runId : String
  position : Nat
  role : Role
  payloadJson : Json
  createdAt : Timestamp
  deriving Repr, DecidableEq

/-- What is committed: the rows of the three tables, in the order they were inserted. -/
structure Database where
  sessions : List SessionRow := []
  runs : List RunRow := []
  historyItems : List HistoryRow := []
  deriving Repr, DecidableEq

/-- What a statement raises: a broken constraint, or any other failure of the backend. -/
inductive SqlError where
  | integrity
  | operational
  deriving Repr, DecidableEq

/-- The check on the `runs` table: an active row has no terminal data, any other row has both. -/
def RunRow.Checked (row : RunRow) : Prop :=
  (row.status = .active ∧ row.endedAt = none ∧ row.outcomeJson = none) ∨
    (row.status ≠ .active ∧ row.endedAt ≠ none ∧ row.outcomeJson ≠ none)

instance (row : RunRow) : Decidable row.Checked := by
  unfold RunRow.Checked
  infer_instance

namespace Database

/-- The primary key of `sessions` is taken. -/
def HasSession (db : Database) (sessionId : String) : Prop :=
  ∃ row ∈ db.sessions, row.id = sessionId

/-- The primary key of `runs` is taken, in whatever session. -/
def HasRun (db : Database) (runId : String) : Prop :=
  ∃ row ∈ db.runs, row.id = runId

/-- The session owns a row the partial index `one_active_run_per_session` covers. -/
def HasActiveRun (db : Database) (sessionId : String) : Prop :=
  ∃ row ∈ db.runs, row.sessionId = sessionId ∧ row.status = .active

instance (db : Database) (sessionId : String) : Decidable (db.HasSession sessionId) := by
  unfold HasSession
  infer_instance

instance (db : Database) (runId : String) : Decidable (db.HasRun runId) := by
  unfold HasRun
  infer_instance

instance (db : Database) (sessionId : String) : Decidable (db.HasActiveRun sessionId) := by
  unfold HasActiveRun
  infer_instance

/-! ## Queries -/

/-- `SELECT … FROM sessions WHERE id = ?`. -/
def session? (db : Database) (sessionId : String) : Option SessionRow :=
  db.sessions.find? (·.id = sessionId)

/-- `SELECT … FROM runs WHERE session_id = ? AND status = 'active'`. -/
def activeRun? (db : Database) (sessionId : String) : Option RunRow :=
  db.runs.find? fun row => row.sessionId = sessionId ∧ row.status = .active

/-- `SELECT … FROM runs WHERE session_id = ? AND id = ?`. -/
def run? (db : Database) (sessionId runId : String) : Option RunRow :=
  db.runs.find? fun row => row.sessionId = sessionId ∧ row.id = runId

/-- `WHERE session_id = ? ORDER BY position`. -/
def historyRows (db : Database) (sessionId : String) : List HistoryRow :=
  (db.historyItems.filter (·.sessionId = sessionId)).mergeSort (·.position ≤ ·.position)

/-- `COALESCE(MAX(position), -1) + 1`. -/
def nextPosition (db : Database) (sessionId : String) : Nat :=
  match ((db.historyItems.filter (·.sessionId = sessionId)).map (·.position)).max? with
  | none => 0
  | some position => position + 1

/-- `ORDER BY created_at, id`. -/
def sessionRows (db : Database) : List SessionRow :=
  db.sessions.mergeSort fun a b =>
    decide (a.createdAt < b.createdAt) ||
      (decide (a.createdAt = b.createdAt) && decide (a.id ≤ b.id))

/-- `WHERE session_id = ? ORDER BY started_at`. -/
def runRows (db : Database) (sessionId : String) : List RunRow :=
  (db.runs.filter (·.sessionId = sessionId)).mergeSort (·.startedAt ≤ ·.startedAt)

/-! ## Writes -/

/-- `INSERT INTO sessions`. -/
def insertSession (row : SessionRow) (db : Database) : Except SqlError (Unit × Database) :=
  if db.HasSession row.id then .error .integrity
  else .ok ((), { db with sessions := db.sessions ++ [row] })

/-- `INSERT INTO runs`, over the table's checks and the index of active runs. -/
def insertRun (row : RunRow) (db : Database) : Except SqlError (Unit × Database) :=
  if db.HasRun row.id ∨ ¬ row.Checked ∨ ¬ db.HasSession row.sessionId ∨
      (row.status = .active ∧ db.HasActiveRun row.sessionId) then .error .integrity
  else .ok ((), { db with runs := db.runs ++ [row] })

/-- `INSERT INTO history_items`, over its unique positions and its foreign keys. -/
def insertHistory (row : HistoryRow) (db : Database) : Except SqlError (Unit × Database) :=
  if (∃ old ∈ db.historyItems, old.id = row.id) ∨
      (∃ old ∈ db.historyItems, old.sessionId = row.sessionId ∧ old.position = row.position) ∨
      ¬ db.HasSession row.sessionId ∨ ¬ db.HasRun row.runId then .error .integrity
  else .ok ((), { db with historyItems := db.historyItems ++ [row] })

/-- The row the conditional terminal update leaves in place of `row`. -/
def finishedRow (status : RunStatus) (endedAt : Timestamp) (outcomeJson : Json)
    (runId sessionId : String) (row : RunRow) : RunRow :=
  if row.id = runId ∧ row.sessionId = sessionId ∧ row.status = .active then
    { row with status := status, endedAt := some endedAt, outcomeJson := some outcomeJson }
  else row

/-- `UPDATE runs SET … WHERE id = ? AND session_id = ? AND status = 'active'`, with its row
count. -/
def finishRun (status : RunStatus) (endedAt : Timestamp) (outcomeJson : Json)
    (runId sessionId : String) (db : Database) : Except SqlError (Nat × Database) :=
  let matched := db.runs.filter fun row =>
    row.id = runId ∧ row.sessionId = sessionId ∧ row.status = .active
  if matched ≠ [] ∧ status = .active then .error .integrity
  else .ok (matched.length,
    { db with runs := db.runs.map (finishedRow status endedAt outcomeJson runId sessionId) })

/-- `UPDATE sessions SET updated_at = ? WHERE id = ?`. -/
def touchSession (updatedAt : Timestamp) (sessionId : String) (db : Database) : Database :=
  { db with
    sessions := db.sessions.map fun row =>
      if row.id = sessionId then { row with updatedAt := updatedAt } else row }

end Database

end Tile
