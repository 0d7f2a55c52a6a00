import Tile.Library.Effect
import Tile.Runtime.RunExecution

/-!
# Agent — the agent run loop

One agent invocation calls the provider until a turn terminates or stops requesting tools.  The
provider and the tools are the environment's: a `TurnScript` says what they do in one provider turn,
each possibly stopping the task at any point where it awaits.  A task whose script is over is
suspended.
-/

namespace Tile

/-- What `provider.stream` was called with, and the run's provisional delta at that moment. -/
structure ProviderRequest where
  history : List ConversationItem
  instructions : String
  tools : List ToolDefinition
  delta : List ConversationItem

/-- The run an agent drives, and the provider requests it has made. -/
structure Live where
  execution : RunExecution
  requests : List ProviderRequest := []

def Live.emit (event : AgentEvent) (live : Live) : Live :=
  { live with execution := live.execution.emit event }

def Live.request (history : List ConversationItem) (instructions : String)
    (tools : List ToolDefinition) (live : Live) : Live :=
  { live with
    requests := live.requests ++
      [{ history, instructions, tools, delta := live.execution.history.delta }] }

abbrev AgentRun := Effect Live Interrupt

def emit (event : AgentEvent) : AgentRun Unit := Effect.modify (Live.emit event)

/-- Await something of the environment. -/
def await (answer : Except Interrupt Unit) : AgentRun Unit := Effect.lift fun _ => answer

/-- What the environment does in one provider turn: opening the stream, the events of the stream and
how it stops after them, the tool calls of the turn, and closing the stream. -/
structure TurnScript where
  opening : Except Interrupt Unit := .ok ()
  events : List ProviderStreamEvent := []
  ending : Except Interrupt Unit := .ok ()
  tools : List ToolAnswer := []
  closing : Except Interrupt Unit := .ok ()

/-- Terminal facts produced by one successful stateless agent invocation. -/
structure AgentResult where
  lastTurn : AssistantTurn
  toolExecutions : List ToolExecutionOutcome

/-- Final assistant turn and tool executions produced by one provider stream. -/
structure TurnResult where
  assistantTurn : AssistantTurn
  toolExecutions : List ToolExecutionOutcome

/-- The assistant turn followed by its tool result turns. -/
def TurnResult.conversationItems (result : TurnResult) : List ConversationItem :=
  .assistant result.assistantTurn :: result.toolExecutions.map fun execution =>
    .toolResult execution.toolResultTurn

/-- Whether this turn requires another provider turn. -/
def TurnResult.shouldContinue (result : TurnResult) : Bool :=
  result.toolExecutions ≠ [] && !result.toolExecutions.any (·.terminate)

/-- Raised when a provider turn ends with an unsuccessful assistant result. -/
def turnFailedError (turn : AssistantTurn) : PyException where
  typeName := "TurnFailedError"
  message := match turn.errorMessage with
    | some message => if message = "" then "The assistant turn failed." else message
    | none => "The assistant turn failed."
  turnFailed := true

/-- Raised when a provider stream violates its terminal contract. -/
def providerStreamProtocolError : PyException where
  typeName := "ProviderStreamProtocolError"
  message := "Provider stream ended without StreamDoneEvent or StreamErrorEvent."

section Turn

variable (executor : ToolExecutor)

/-- Emit the full lifecycle for one tool execution and return its outcome. -/
def executeTool (toolCall : ToolCallBlock) (answer : ToolAnswer) :
    AgentRun ToolExecutionOutcome := do
  emit (.toolExecutionStart toolCall.callId toolCall.name toolCall.arguments)
  let outcome ← Effect.lift fun _ =>
    executor.execute toolCall.callId toolCall.name toolCall.arguments answer
  emit (.toolExecutionEnd outcome)
  return outcome

/-- Execute every tool call and return its outcome. -/
def executeTools : List ToolCallBlock → List ToolAnswer → AgentRun (List ToolExecutionOutcome)
  | [], _ => return []
  | toolCall :: rest, answers => do
    let outcome ← executeTool executor toolCall (answers.headD (.escapes .pending))
    return outcome :: (← executeTools rest answers.tail)

/-- Finalize a completed assistant message and execute requested tools. -/
def handleStreamDoneEvent (answers : List ToolAnswer) (event : StreamDoneEvent) :
    AgentRun TurnResult := do
  let turn := AssistantTurn.fromStreamDone event
  emit (.messageEnd turn)
  let toolExecutions ← executeTools executor turn.toolCalls answers
  emit (.turnEnd turn toolExecutions)
  return { assistantTurn := turn, toolExecutions }

/-- Finalize a failed assistant message. -/
def handleStreamErrorEvent (event : StreamErrorEvent) : AgentRun (Option TurnResult) := do
  let turn := AssistantTurn.fromStreamError event
  emit (.messageEnd turn)
  Effect.raise (.raised (turnFailedError turn))

/-- Route one provider stream event and return terminal turn facts. -/
def handleStreamEvent (answers : List ToolAnswer) :
    ProviderStreamEvent → AgentRun (Option TurnResult)
  | .streamStart _ responseId => do
    emit .turnStart
    emit (.messageStart (some responseId))
    return none
  | .done event => do return some (← handleStreamDoneEvent executor answers event)
  | .error event => handleStreamErrorEvent event
  | .update event => do
    emit (.messageUpdate event)
    return none

/-- The `async for` loop over the stream. -/
def consumeStream (script : TurnScript) : List ProviderStreamEvent → AgentRun (Option TurnResult)
  | [] => do
    await script.ending
    return none
  | event :: rest => do
    match ← handleStreamEvent executor script.tools event with
    | some result => return some result
    | none => consumeStream script rest

/-- `async with aclosing(stream)`: close the stream on every exit.  A suspended body has not exited,
and what closing raises replaces the body's own end. -/
def aclosing {α : Type} (closing : Except Interrupt Unit) (body : AgentRun α) : AgentRun α :=
  fun live => match body live with
    | (.error .pending, live') => (.error .pending, live')
    | (result, live') => match closing with
      | .ok _ => (result, live')
      | .error interrupt => (.error interrupt, live')

/-- Run one provider stream and return its terminal turn facts. -/
def runProviderTurn (instructions : String) (runHistory : List ConversationItem)
    (script : TurnScript) : AgentRun TurnResult := do
  Effect.modify (Live.request runHistory instructions executor.tools)
  await script.opening
  match ← aclosing script.closing (consumeStream executor script script.events) with
  | some result => return result
  | none => Effect.raise (.raised providerStreamProtocolError)

/-- Call the provider until a turn terminates or stops requesting tools. -/
def runAgentLoop (instructions : String) :
    List TurnScript → List ConversationItem → List ToolExecutionOutcome → AgentRun AgentResult
  | [], _, _ => Effect.raise .pending
  | script :: rest, runHistory, toolExecutions => do
    let result ← runProviderTurn executor instructions runHistory script
    let runHistory := runHistory ++ result.conversationItems
    let toolExecutions := toolExecutions ++ result.toolExecutions
    if result.shouldContinue then runAgentLoop instructions rest runHistory toolExecutions
    else return { lastTurn := result.assistantTurn, toolExecutions }

/-- Run one stateless agent invocation and return its terminal facts.  `history` is the run's own
live list; the loop starts from a copy of it. -/
def runAgent (instructions : String) (turns : List TurnScript) : AgentRun AgentResult := do
  emit .agentStart
  let history ← Effect.gets (·.execution.history.working)
  let result ← runAgentLoop executor instructions turns history []
  emit .agentEnd
  return result

end Turn

end Tile
