import Tile.Runtime.Phases
import Tile.Store.Calls
import Tile.Store.Lifecycle

/-!
# Runtime/Finalization — one run execution among other users of its database

    executing ──task ends──▸ ended ──finish_run──▸ concluding ──▸ finalized
                                  └──already ended──▸ reconciling ──get_run──▸ concluding

`_finalize` runs once the task of a run is done.  It calls the store once or twice, and between any
two of its steps other processes may call the same store.
-/

namespace Tile

/-- `type(error).__name__` of what the backend raised. -/
def BackendError.typeName : BackendError → String
  | .sqlite .integrity => "IntegrityError"
  | .sqlite .operational => "OperationalError"
  | .value _ => "ValueError"

/-- `type(error).__name__`. -/
def PyError.typeName : PyError → String
  | .store error => error.typeName
  | .backend error => error.typeName

/-- `str(error)`. -/
def PyError.message : PyError → String
  | .store error => error.message
  | .backend error => error.message

/-- The fault of a harness that could not make an outcome durable.  A missing session or run would
print its text quoted, as a `KeyError` does; the run of an execution is never missing. -/
def RunResult.ofError (error : PyError) : RunResult := .faulted error.typeName error.message

/-- Where a run execution stands. -/
inductive Stage where
  | executing
  /-- The task is done, and `_finalize` is due. -/
  | ended (taskEnd : TaskEnd)
  /-- Another writer had ended the run: its record is due to be read. -/
  | reconciling
  | concluding (result : RunResult)
  | finalized
  deriving DecidableEq

/-- `_finish`, by what `finish_run` returned or raised. -/
def stageAfterFinish : Except PyError TerminalRun → Stage
  | .ok record => .concluding (.ended record.outcome)
  | .error (.store (.runAlreadyEnded _)) => .reconciling
  | .error error => .concluding (.ofError error)

/-- `_ended_outcome`, by what `get_run` returned or raised. -/
def endedResult (runId : String) : Except PyError RunRecord → RunResult
  | .ok (.terminal record) => .ended record.outcome
  | .ok (.active _) => .ofError (.store (.endedWithoutRecord runId))
  | .error error => .ofError error

/-- Who made a call: the run execution, or another user of the database. -/
inductive Party where
  | own | other
  deriving DecidableEq

/-- A run execution and the database it shares; `calls` are all calls since the run was admitted. -/
structure RunWorld where
  db : Database
  execution : RunExecution
  stage : Stage := .executing
  calls : List (Party × StoreEvent) := []

/-- A step of the run or of another process.  What the environment of a call decides comes with
it. -/
inductive RunAct where
  | other (call : Call) (ambient : Ambient)
  | emit (event : AgentEvent)
  | endTask (taskEnd : TaskEnd)
  | finish (ambient : Ambient)
  | read (ambient : Ambient)
  | conclude

namespace RunWorld

variable [JsonParser] (world : RunWorld)

/-- A call was made and left `db`. -/
def called (party : Party) (event : StoreEvent) (db : Database) : RunWorld :=
  { world with db, calls := world.calls ++ [(party, event)] }

/-- Another process calls the store. -/
def callOther (call : Call) (ambient : Ambient) : RunWorld :=
  let (reply, db) := call.run ambient world.db
  world.called .other ⟨call, ambient, reply⟩ db

/-- `_finish` up to the reply of `finish_run`: the history is healed and the run finished. -/
def callFinish (taskEnd : TaskEnd) (ambient : Ambient) : RunWorld :=
  let execution := world.execution.heal
  let record := execution.record
  let outcome := terminalOutcome taskEnd
  let (reply, connection) := SQLiteStore.finishRun ambient.now ambient.uuid record.sessionId
    record.id outcome execution.history.delta { committed := world.db, faults := ambient.faults }
  { world.called .own
      ⟨.finishRun record.sessionId record.id outcome execution.history.delta, ambient,
        reply.map .finished⟩ connection.committed with
    execution, stage := stageAfterFinish reply }

/-- `_ended_outcome`. -/
def callRead (ambient : Ambient) : RunWorld :=
  let record := world.execution.record
  let (reply, connection) := SQLiteStore.getRun record.sessionId record.id
    { committed := world.db, faults := ambient.faults }
  { world.called .own ⟨.getRun record.sessionId record.id, ambient, reply.map .run⟩
      connection.committed with
    stage := .concluding (endedResult record.id reply) }

/-- One step; a step that is not possible does nothing.  Execution emits only inner events. -/
def act : RunAct → RunWorld
  | .other call ambient => world.callOther call ambient
  | .emit event =>
    if world.stage = .executing ∧ event.isLifecycle = false then
      { world with execution := world.execution.emit event }
    else world
  | .endTask taskEnd =>
    if world.stage = .executing then { world with stage := .ended taskEnd } else world
  | .finish ambient => match world.stage with
    | .ended taskEnd => world.callFinish taskEnd ambient
    | _ => world
  | .read ambient => match world.stage with
    | .reconciling => world.callRead ambient
    | _ => world
  | .conclude => match world.stage with
    | .concluding result =>
      { world with execution := world.execution.conclude result, stage := .finalized }
    | _ => world

/-- The run after a schedule of steps. -/
def play (schedule : List RunAct) : RunWorld := schedule.foldl act world

/-- A run that was just admitted, in the database this left. -/
def admitted (started : StartedRun) (db : Database) : RunWorld where
  db := db
  execution := .init started.run started.committedHistory

/-- The calls of everyone, in the order they committed. -/
def events : List StoreEvent := world.calls.map Prod.snd

/-- The execution's own `finish_run` committed. -/
def Committed : Prop :=
  ∃ event run, (.own, event) ∈ world.calls ∧ event.reply = .ok (.finished run)

end RunWorld

end Tile
