import Tile.Store.Sqlite

/-!
# Store/Calls — store calls as steps on one database

Any number of store instances, in any number of processes, share one database.  Each call is one
write transaction or one read on a connection of its own, so a history of the database is a list of
calls.  A call carries what its environment supplies: the clock reading, the drawn ids and the
faults of the backend.  `run_eq` is the contract all later arguments start from: **a call behaves as
on a healthy backend, or raises a persistence error and leaves the database alone**.
-/

namespace Tile

variable [JsonParser]

/-- What the environment supplies to one call. -/
structure Ambient where
  now : Timestamp
  uuid : Nat → String
  faults : List Bool := []

/-- A call of the store, with its arguments. -/
inductive Call where
  | createSession (sessionId : String)
  | getSession (sessionId : String)
  | listSessions
  | startRun (sessionId runId prompt model provider : String)
  | finishRun (sessionId runId : String) (outcome : RunOutcome)
      (historyDelta : List ConversationItem)
  | abortActiveRun (sessionId : String)
  | getHistory (sessionId : String)
  | getRun (sessionId runId : String)
  | listRuns (sessionId : String)
  | forkSession (sourceSessionId targetSessionId : String)
  deriving DecidableEq

/-- What a call returns. -/
inductive Reply where
  | session (record : SessionRecord)
  | sessions (records : List SessionRecord)
  | started (run : StartedRun)
  | finished (run : TerminalRun)
  | aborted (run : Option TerminalRun)
  | history (items : List HistoryItem)
  | run (record : RunRecord)
  | runs (records : List RunRecord)
  deriving DecidableEq

/-- The method a call runs. -/
def Call.method (ambient : Ambient) : Call → Sql Reply
  | .createSession sessionId => .session <$> SQLiteStore.createSession ambient.now sessionId
  | .getSession sessionId => .session <$> SQLiteStore.getSession sessionId
  | .listSessions => .sessions <$> SQLiteStore.listSessions
  | .startRun sessionId runId prompt model provider =>
    .started <$> SQLiteStore.startRun ambient.now sessionId runId prompt model provider
  | .finishRun sessionId runId outcome historyDelta =>
    .finished <$>
      SQLiteStore.finishRun ambient.now ambient.uuid sessionId runId outcome historyDelta
  | .abortActiveRun sessionId => .aborted <$> SQLiteStore.abortActiveRun ambient.now sessionId
  | .getHistory sessionId => .history <$> SQLiteStore.getHistory sessionId
  | .getRun sessionId runId => .run <$> SQLiteStore.getRun sessionId runId
  | .listRuns sessionId => .runs <$> SQLiteStore.listRuns sessionId
  | .forkSession source target =>
    .session <$> SQLiteStore.forkSession ambient.now ambient.uuid source target

/-- One call on the shared database: its reply, and the database it leaves committed. -/
def Call.run (call : Call) (ambient : Ambient) (db : Database) : Except PyError Reply × Database :=
  let (reply, connection) :=
    call.method ambient { committed := db, faults := ambient.faults }
  (reply, connection.committed)

end Tile
