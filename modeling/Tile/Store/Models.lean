import Tile.Store.Payload

/-!
# Store/Models — persistent domain records

Records are validated when they are built: a session is not updated before it is created and a run
does not end before it starts, so both carry that order as a field.  Instants are UTC, in
microseconds.
-/

namespace Tile

/-- A moment in UTC. -/
abbrev Timestamp := Nat

/-- Where a run stands: active, or as its outcome says. -/
inductive RunStatus where
  | active | completed | failed | aborted
  deriving Repr, DecidableEq

/-- Immutable metadata for one persistent conversation session. -/
structure SessionRecord where
  id : String
  createdAt : Timestamp
  updatedAt : Timestamp
  ordered : createdAt ≤ updatedAt
  deriving DecidableEq

/-- Identity and admission state of one submitted prompt run. -/
structure RunBase where
  id : String
  sessionId : String
  prompt : String
  startedAt : Timestamp
  model : String
  provider : String
  deriving Repr, DecidableEq

/-- Immutable persistent state for a run that has not ended. -/
structure ActiveRun extends RunBase
  deriving Repr, DecidableEq

/-- Immutable persistent state for a run that has ended. -/
structure TerminalRun extends RunBase where
  endedAt : Timestamp
  outcome : RunOutcome
  ordered : startedAt ≤ endedAt
  deriving DecidableEq

/-- A run as the store returns it. -/
inductive RunRecord where
  | active (run : ActiveRun)
  | terminal (run : TerminalRun)
  deriving DecidableEq

/-- A frozen envelope around a conversation item. -/
structure HistoryItem where
  id : String
  sessionId : String
  runId : String
  position : Nat
  item : ConversationItem
  createdAt : Timestamp
  deriving Repr, DecidableEq

/-- Bootstrap state of one newly started run. -/
structure StartedRun where
  run : ActiveRun
  committedHistory : List HistoryItem
  deriving DecidableEq

/-- The terminal status implied by an outcome. -/
def terminalStatusFor : RunOutcome → RunStatus
  | .completed _ => .completed
  | .failed _ => .failed
  | .aborted _ => .aborted

/-- The terminal status implied by the outcome. -/
def TerminalRun.status (run : TerminalRun) : RunStatus := terminalStatusFor run.outcome

/-- Create Store-owned metadata for a newly persisted session. -/
def newSessionRecord (now : Timestamp) (sessionId : String) : SessionRecord where
  id := sessionId
  createdAt := now
  updatedAt := now
  ordered := Nat.le_refl now

/-- Create Store-owned persistent state for a newly accepted run. -/
def newActiveRunRecord (now : Timestamp) (runId sessionId prompt model provider : String) :
    ActiveRun where
  id := runId
  sessionId := sessionId
  prompt := prompt
  startedAt := now
  model := model
  provider := provider

/-- Terminal state from an authoritative active record; a clock behind the start is clamped. -/
def terminalRunRecord (now : Timestamp) (active : ActiveRun) (outcome : RunOutcome) :
    TerminalRun where
  toRunBase := active.toRunBase
  endedAt := max now active.startedAt
  outcome := outcome
  ordered := Nat.le_max_right now active.startedAt

@[simp] theorem terminalRunRecord_id (now : Timestamp) (active : ActiveRun) (outcome : RunOutcome) :
    (terminalRunRecord now active outcome).id = active.id := rfl

@[simp] theorem terminalStatusFor_ne_active (outcome : RunOutcome) :
    terminalStatusFor outcome ≠ .active := by
  cases outcome <;> simp [terminalStatusFor]

@[simp] theorem terminalStatusFor_plain (outcome : RunOutcome) :
    terminalStatusFor outcome.plain = terminalStatusFor outcome := by
  match outcome with
  | .completed (.text _) | .completed (.object _) | .failed _ | .aborted _ => rfl
  | .completed (.model value) => rfl

end Tile
