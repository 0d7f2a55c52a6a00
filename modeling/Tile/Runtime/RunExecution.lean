import Tile.Library.AsyncEvent
import Tile.Runtime.History
import Tile.ToolExecutor

/-!
# Runtime/RunExecution — the live state of one accepted run

A run execution owns the event log, the conversation buffers and, once it is finalized, the result.
Every event goes through `emit`: it is projected into the buffers, logged and announced.
-/

namespace Tile

/-- What waiting for a run returns: an outcome, or the fault of a harness that could not make one
durable. -/
inductive RunResult where
  | ended (outcome : RunOutcome)
  | faulted (exceptionType message : String)
  deriving Repr, DecidableEq

/-- The event that closes the log of a run with this result. -/
def RunResult.terminalEvent : RunResult → AgentEvent
  | .ended outcome => .runEnd outcome
  | .faulted exceptionType message => .runFault exceptionType message

/-- How the task of a run ended. -/
inductive TaskEnd where
  | returned (outcome : RunOutcome)
  | raised (error : PyException)
  | cancelled
  deriving Repr, DecidableEq

/-- Serialize one runtime exception without retaining it in persistence. -/
def executionFailure (error : PyException) : FailureCause :=
  .executionFailure (if error.turnFailed then .turn else .execution) error.typeName error.message

/-- The outcome a task's end stands for. -/
def terminalOutcome : TaskEnd → RunOutcome
  | .cancelled => .aborted .cancelled
  | .raised error => .failed (executionFailure error)
  | .returned outcome => outcome

/-- Live state of one run.  `changed` and `finalized` are its two `asyncio.Event`s; nothing but the
flag of `finalized` is used, and it is never cleared. -/
structure RunExecution where
  record : ActiveRun
  events : List AgentEvent := []
  history : RunHistory
  result : Option RunResult := none
  changed : AsyncEvent Nat := {}
  finalized : Bool := false

namespace RunExecution

/-- Publish one event and project its replayable history item. -/
def emit (event : AgentEvent) (execution : RunExecution) : RunExecution :=
  { execution with
    history := execution.history.observe event
    events := execution.events ++ [event]
    changed := execution.changed.set }

/-- Publish some events, one after the other. -/
def emitAll (events : List AgentEvent) (execution : RunExecution) : RunExecution :=
  events.foldl (fun execution event => execution.emit event) execution

/-- Prepare an already accepted run. -/
def init (record : ActiveRun) (committedHistory : List HistoryItem) : RunExecution :=
  emit .runStart { record, history := .start committedHistory record.prompt }

def heal (execution : RunExecution) : RunExecution :=
  { execution with history := execution.history.heal }

/-- Publish the result and close the event log. -/
def conclude (result : RunResult) (execution : RunExecution) : RunExecution :=
  { emit result.terminalEvent { execution with result := some result } with finalized := true }

/-- What `wait` returns, once it returns. -/
def wait (execution : RunExecution) : Option RunResult :=
  if execution.finalized then execution.result else none

section Emit

variable (event : AgentEvent) (execution : RunExecution)

@[simp] theorem emit_events : (emit event execution).events = execution.events ++ [event] := rfl

@[simp] theorem emit_history :
    (emit event execution).history = execution.history.observe event := rfl

@[simp] theorem emit_finalized : (emit event execution).finalized = execution.finalized := rfl

end Emit

end RunExecution

end Tile
