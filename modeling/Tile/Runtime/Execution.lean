import Tile.Agent

/-!
# Runtime/Execution — prompt programs

What a prompt run emits and how it concludes: one agent attempt for a plain prompt, up to
`MAX_RESULT_FOLLOW_UPS + 1` attempts for a prompt that must produce a result.
-/

namespace Tile

/-- What the environment does in one attempt: `systemPrompt` composes the prompt from the
instructions and from what it finds in the working directory. -/
structure AttemptScript where
  systemPrompt : String → Except PyException String := .ok
  turns : List TurnScript := []

/-- The environment of a whole run: whether the task is cancelled before it starts, or in its last
step, and its attempts. -/
structure PromptScript where
  cancelledAtStart : Bool := false
  attempts : List AttemptScript := []
  cancelledAtEnd : Bool := false

/-- Caller-constructed dependencies a prompt program may touch. -/
structure ExecutionDependencies where
  instructions : String
  toolExecutor : ToolExecutor

/-- Drive one stateless agent attempt, emitting every event. -/
def runAttempt (deps : ExecutionDependencies) (script : AttemptScript) : AgentRun AgentResult := do
  let instructions ← Effect.lift fun _ =>
    (script.systemPrompt deps.instructions).mapError .raised
  runAgent deps.toolExecutor instructions script.turns

/-- Join one assistant turn's text blocks. -/
def assistantText (turn : AssistantTurn) : String :=
  "\n\n".intercalate <| turn.blocks.filterMap fun
    | .text block => some block.text
    | .reasoning _ | .toolCall _ => none

/-- Build a terminal outcome, or return none when a result remains missing. -/
def resultOutcome (toolExecutions : List ToolExecutionOutcome) : Option RunOutcome :=
  toolExecutions.findSome? fun execution =>
    if !execution.terminate then none
    else match execution.details with
      | some (.complete value) => some (.completed (.model value))
      | some (.fail reason) => some (.failed (.agentFailure reason))
      | _ => none

/-- Run one plain agent invocation and conclude with its text outcome. -/
def executePlain (deps : ExecutionDependencies) (script : PromptScript) : AgentRun RunOutcome := do
  let agentResult ← runAttempt deps (script.attempts.headD {})
  return .completed (.text (assistantText agentResult.lastTurn))

/-- Resolve one typed prompt's shared attempt dependencies. -/
def typedAttemptDependencies (deps : ExecutionDependencies) (result : ResultModel) :
    Except PyException ExecutionDependencies := do
  let complete ← completeTool result
  let executor ← ToolExecutor.create deps.toolExecutor.lower
    (deps.toolExecutor.tools ++ [complete, failTool])
  return { instructions := s!"{deps.instructions}\n\n{RESULT_CONTRACT}", toolExecutor := executor }

/-- Remind the model of the result contract, unless no attempt is left. -/
def emitFollowUp (left : Nat) : AgentRun Unit :=
  if left > 0 then emit (.resultFollowUp { content := RESULT_FOLLOW_UP }) else pure ()

/-- The attempts that are left of a typed prompt. -/
def typedAttempts (deps : ExecutionDependencies) :
    (left : Nat) → List AttemptScript → AgentRun RunOutcome
  | 0, _ => return .failed (.agentFailure NO_RESULT_REASON)
  | left + 1, scripts => do
    let agentResult ← runAttempt deps (scripts.headD {})
    match resultOutcome agentResult.toolExecutions with
    | some outcome => return outcome
    | none => do
      emitFollowUp left
      typedAttempts deps left scripts.tail

/-- Run agent attempts until the required result is produced or exhausted. -/
def executeTyped (deps : ExecutionDependencies) (result : ResultModel)
    (script : PromptScript) : AgentRun RunOutcome := do
  let attemptDependencies ← Effect.lift fun _ =>
    (typedAttemptDependencies deps result).mapError .raised
  typedAttempts attemptDependencies (MAX_RESULT_FOLLOW_UPS + 1) script.attempts

/-- Run one prompt program, emitting inner events, and return its outcome. -/
def executePrompt (deps : ExecutionDependencies) (result : Option ResultModel)
    (script : PromptScript) : AgentRun RunOutcome :=
  if script.cancelledAtStart then Effect.raise .cancelled
  else match result with
    | none => executePlain deps script
    | some result => executeTyped deps result script

/-! ## Prompt runs -/

/-- One accepted prompt, and what its environment does. -/
structure PromptRun where
  record : ActiveRun
  committedHistory : List HistoryItem
  dependencies : ExecutionDependencies
  result : Option ResultModel
  script : PromptScript

namespace PromptRun

variable (run : PromptRun)

/-- How execution stopped, or where it is suspended, and the run it leaves. -/
def executed : Except Interrupt RunOutcome × Live :=
  executePrompt run.dependencies run.result run.script
    { execution := .init run.record run.committedHistory }

/-- How the task ended, if it did.  A task cancelled in its very last step returns nothing. -/
def taskEnd? : Option TaskEnd :=
  match run.executed.1 with
  | .ok outcome => if run.script.cancelledAtEnd then some .cancelled else some (.returned outcome)
  | .error (.raised error) => some (.raised error)
  | .error .cancelled => some .cancelled
  | .error .pending => none

/-- The event log, up to where execution stopped. -/
def log : List AgentEvent := run.executed.2.execution.events

/-- The delta the run is finished with. -/
def delta : List ConversationItem := run.executed.2.execution.heal.history.delta

end PromptRun

end Tile
