import Tile.Store.Base

/-!
# Store/Sqlite — the store's operations

Each operation is the sequence of statements its method runs.  `now` is the method's reading of the
wall clock, `uuid k` the id drawn for the `k`-th history row it inserts.
-/

namespace Tile

variable [JsonParser]

/-! ## Rows and records -/

/-- Serialize a session record into column values. -/
def sessionValues (record : SessionRecord) : SessionRow where
  id := record.id
  createdAt := record.createdAt
  updatedAt := record.updatedAt

/-- Deserialize one session row; the record's validator rejects times out of order. -/
def sessionFromRow (row : SessionRow) : Except PyError SessionRecord :=
  if h : row.createdAt ≤ row.updatedAt then
    .ok { id := row.id, createdAt := row.createdAt, updatedAt := row.updatedAt, ordered := h }
  else .error (.backend (.value "A session cannot be updated before it is created."))

/-- Serialize a newly accepted active run into column values. -/
def runValues (record : ActiveRun) : RunRow where
  id := record.id
  sessionId := record.sessionId
  prompt := record.prompt
  status := .active
  startedAt := record.startedAt
  endedAt := none
  model := record.model
  provider := record.provider
  outcomeJson := none

/-- The columns a run is admitted with. -/
def RunRow.base (row : RunRow) : RunBase where
  id := row.id
  sessionId := row.sessionId
  prompt := row.prompt
  startedAt := row.startedAt
  model := row.model
  provider := row.provider

/-- Deserialize one run row that must hold an active run. -/
def activeRunFromRow (row : RunRow) : Except PyError ActiveRun :=
  if row.status ≠ .active then
    .error (.backend (.value s!"Run row '{row.id}' is not active."))
  else if row.endedAt ≠ none ∨ row.outcomeJson ≠ none then
    .error (.backend (.value s!"Active run row '{row.id}' carries terminal data."))
  else .ok { toRunBase := row.base }

/-- The terminal record of a row: its outcome is loaded, its times validated, and its status checked
against the outcome. -/
def terminalRunFromRow (row : RunRow) (endedAt : Timestamp) (outcomeJson : Json) :
    Except PyError TerminalRun :=
  match loadOutcome outcomeJson with
  | none => .error (.backend (.value "outcome"))
  | some outcome =>
    if h : row.startedAt ≤ endedAt then
      if terminalStatusFor outcome ≠ row.status then
        .error (.backend (.value "Stored run status contradicts the stored outcome."))
      else .ok { toRunBase := row.base, endedAt := endedAt, outcome := outcome, ordered := h }
    else .error (.backend (.value "A run cannot end before it starts."))

/-- Deserialize one run row, rehydrating its lifecycle state. -/
def runFromRow (row : RunRow) : Except PyError RunRecord :=
  if row.status = .active then (activeRunFromRow row).map .active
  else match row.endedAt, row.outcomeJson with
    | some endedAt, some outcomeJson => (terminalRunFromRow row endedAt outcomeJson).map .terminal
    | _, _ =>
      .error (.backend (.value s!"Terminal run row '{row.id}' is missing terminal data."))

/-- Serialize one new committed history envelope. -/
def historyValues (id : String) (item : ConversationItem) (runId sessionId : String)
    (position : Nat) (createdAt : Timestamp) : HistoryRow where
  id := id
  sessionId := sessionId
  runId := runId
  position := position
  role := item.role
  payloadJson := itemToJson item
  createdAt := createdAt

/-- Deserialize one history row into a typed envelope. -/
def historyFromRow (row : HistoryRow) : Except PyError HistoryItem :=
  match loadConversationItem row.payloadJson with
  | none => .error (.backend (.value "conversation item"))
  | some item =>
    if item.role ≠ row.role then .error (.store (.invalidHistory row.role item.role))
    else .ok
      { id := row.id
        sessionId := row.sessionId
        runId := row.runId
        position := row.position
        item := item
        createdAt := row.createdAt }

/-! ## Statements shared by the operations -/

/-- Insert one validated session record. -/
def insertSession (record : SessionRecord) : Sql Unit :=
  execute (Database.insertSession (sessionValues record))

/-- `_get_session`: one session, inside or outside a transaction. -/
def getSessionRecord (sessionId : String) : Sql SessionRecord := do
  match ← query (·.session? sessionId) with
  | none => Effect.raise (.store (.sessionNotFound sessionId))
  | some row => Effect.lift fun _ => sessionFromRow row

/-- Raise when a session id is unknown. -/
def requireSession (sessionId : String) : Sql Unit := do
  match ← query (·.session? sessionId) with
  | none => Effect.raise (.store (.sessionNotFound sessionId))
  | some _ => return

/-- Raise when a session id is already present. -/
def rejectExistingSession (sessionId : String) : Sql Unit := do
  match ← query (·.session? sessionId) with
  | none => return
  | some _ => Effect.raise (.store (.sessionAlreadyExists sessionId))

/-- The session's active run when present. -/
def activeRunForSession (sessionId : String) : Sql (Option ActiveRun) := do
  match ← query (·.activeRun? sessionId) with
  | none => return none
  | some row => return some (← Effect.lift fun _ => activeRunFromRow row)

/-- Reject a start when its session already has an active run. -/
def rejectActiveRun : Option ActiveRun → Sql Unit
  | none => return
  | some active => Effect.raise (.store (.activeRun active.sessionId))

/-- Whether a run id is already present. -/
def runExists (runId : String) : Sql Bool :=
  query fun db => decide (db.HasRun runId)

/-- Insert one active run; a taken id is named by a domain error. -/
def insertRun (record : ActiveRun) : Sql Unit :=
  Effect.catching (execute (Database.insertRun (runValues record))) fun
    | .backend (.sqlite .integrity) => do
      if ← runExists record.id then Effect.raise (.store (.runAlreadyExists record.id))
      else Effect.raise (.backend (.sqlite .integrity))
    | error => Effect.raise error

/-- `_get_run`: one session-owned run, inside or outside a transaction. -/
def getRunRecord (sessionId runId : String) : Sql RunRecord := do
  match ← query (·.run? sessionId runId) with
  | none => Effect.raise (.store (.runNotFound runId sessionId))
  | some row => Effect.lift fun _ => runFromRow row

/-- Conditionally update a run only while it remains active. -/
def finalizeActiveRun (record : TerminalRun) : Sql Unit := do
  match dumpOutcome record.outcome with
  | none => Effect.raise (.backend (.value "outcome"))
  | some outcomeJson =>
    let rowCount ← execute
      (Database.finishRun record.status record.endedAt outcomeJson record.id record.sessionId)
    if rowCount = 0 then Effect.raise (.store (.runAlreadyEnded record.id))

/-- The next session-local committed history position. -/
def nextHistoryPosition (sessionId : String) : Sql Nat :=
  query (·.nextPosition sessionId)

/-- The rows of one run's delta, from its first position on. -/
def deltaRows (uuid : Nat → String) (run : TerminalRun) (firstPosition : Nat)
    (items : List ConversationItem) : List HistoryRow :=
  items.mapIdx fun offset item =>
    historyValues (uuid offset) item run.id run.sessionId (firstPosition + offset) run.endedAt

/-- Append one run's typed history delta in order. -/
def insertHistoryDelta (uuid : Nat → String) (run : TerminalRun) (items : List ConversationItem) :
    Sql Unit := do
  if items.isEmpty then return
  let firstPosition ← nextHistoryPosition run.sessionId
  executeMany Database.insertHistory (deltaRows uuid run firstPosition items)

/-- Advance session metadata with the committed run timestamp. -/
def touchSession (run : TerminalRun) : Sql Unit := do
  let current ← getSessionRecord run.sessionId
  execute fun db =>
    .ok ((), db.touchSession (max current.updatedAt run.endedAt) run.sessionId)

/-- All committed history for one session. -/
def historyForSession (sessionId : String) : Sql (List HistoryItem) := do
  let rows ← query (·.historyRows sessionId)
  Effect.lift fun _ => rows.mapM historyFromRow

/-- The rows of a fork: the items of the source with new ids, all else kept. -/
def copiedRows (uuid : Nat → String) (items : List HistoryItem) (targetSessionId : String) :
    List HistoryRow :=
  items.mapIdx fun k item =>
    historyValues (uuid k) item.item item.runId targetSessionId item.position item.createdAt

/-- Duplicate history envelopes while retaining run provenance. -/
def copyHistoryItems (uuid : Nat → String) (items : List HistoryItem) (targetSessionId : String) :
    Sql Unit :=
  executeMany Database.insertHistory (copiedRows uuid items targetSessionId)

/-! ## Operations -/

namespace SQLiteStore

/-- Create and return one session, rejecting an existing id. -/
def createSession (now : Timestamp) (sessionId : String) : Sql SessionRecord :=
  translateStoreErrors .createSession <|
    Effect.catching
      (immediateTransaction do
        let record := newSessionRecord now sessionId
        insertSession record
        return record)
      fun
        | .backend (.sqlite .integrity) => Effect.raise (.store (.sessionAlreadyExists sessionId))
        | error => Effect.raise error

/-- Return one session or raise when it does not exist. -/
def getSession (sessionId : String) : Sql SessionRecord :=
  translateStoreErrors .getSession (getSessionRecord sessionId)

/-- Return sessions in creation order. -/
def listSessions : Sql (List SessionRecord) :=
  translateStoreErrors .listSessions do
    let rows ← query (·.sessionRows)
    Effect.lift fun _ => rows.mapM sessionFromRow

/-- Atomically create a run when its session has no active run. -/
def startRun (now : Timestamp) (sessionId runId prompt model provider : String) :
    Sql StartedRun :=
  translateStoreErrors .startRun <| immediateTransaction do
    requireSession sessionId
    let active ← activeRunForSession sessionId
    rejectActiveRun active
    let committedHistory ← historyForSession sessionId
    let record := newActiveRunRecord now runId sessionId prompt model provider
    insertRun record
    return { run := record, committedHistory }

/-- Atomically finalize a still-active run and append its history delta. -/
def finishRun (now : Timestamp) (uuid : Nat → String) (sessionId runId : String)
    (outcome : RunOutcome) (historyDelta : List ConversationItem) : Sql TerminalRun :=
  translateStoreErrors .finishRun <| immediateTransaction do
    match ← getRunRecord sessionId runId with
    | .terminal _ => Effect.raise (.store (.runAlreadyEnded runId))
    | .active run =>
      let record := terminalRunRecord now run outcome
      finalizeActiveRun record
      insertHistoryDelta uuid record historyDelta
      touchSession record
      return record

/-- Durably abort a session's active run and fence its later writes. -/
def abortActiveRun (now : Timestamp) (sessionId : String) : Sql (Option TerminalRun) :=
  translateStoreErrors .abortActiveRun <| immediateTransaction do
    requireSession sessionId
    match ← activeRunForSession sessionId with
    | none => return none
    | some active =>
      let record := terminalRunRecord now active (.aborted .cancelled)
      finalizeActiveRun record
      touchSession record
      return some record

/-- Return committed history in session-local order. -/
def getHistory (sessionId : String) : Sql (List HistoryItem) :=
  translateStoreErrors .getHistory do
    requireSession sessionId
    historyForSession sessionId

/-- Return one session-owned run or raise when it does not exist. -/
def getRun (sessionId runId : String) : Sql RunRecord :=
  translateStoreErrors .getRun (getRunRecord sessionId runId)

/-- Return runs in ascending start-time order; ties are unspecified. -/
def listRuns (sessionId : String) : Sql (List RunRecord) :=
  translateStoreErrors .listRuns do
    requireSession sessionId
    let rows ← query (·.runRows sessionId)
    Effect.lift fun _ => rows.mapM runFromRow

/-- Atomically create a session with all committed source history. -/
def forkSession (now : Timestamp) (uuid : Nat → String)
    (sourceSessionId targetSessionId : String) : Sql SessionRecord :=
  translateStoreErrors .forkSession <| immediateTransaction do
    requireSession sourceSessionId
    rejectExistingSession targetSessionId
    let target := newSessionRecord now targetSessionId
    insertSession target
    let sourceItems ← historyForSession sourceSessionId
    copyHistoryItems uuid sourceItems targetSessionId
    return target

end SQLiteStore

end Tile
