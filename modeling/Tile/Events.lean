import Tile.Types.Tools

/-!
# Events — what a run logs

A run log begins with `runStart` and ends with `runEnd` or `runFault`.  The events in between are
those of its agent attempts.
-/

namespace Tile

/-- An event of the log of a run. -/
inductive AgentEvent where
  | runStart
  | runEnd (outcome : RunOutcome)
  | runFault (exceptionType message : String)
  | agentStart
  | agentEnd
  | resultFollowUp (message : UserMessage)
  | turnStart
  | turnEnd (assistantTurn : AssistantTurn) (toolExecutions : List ToolExecutionOutcome)
  | messageStart (responseId : Option String)
  | messageUpdate (streamEvent : StreamUpdateEvent)
  | messageEnd (assistantTurn : AssistantTurn)
  | toolExecutionStart (callId toolName : String) (arguments : JsonObject)
  | toolExecutionEnd (outcome : ToolExecutionOutcome)
  deriving DecidableEq

/-- The event closes a log. -/
def AgentEvent.isTerminal : AgentEvent → Bool
  | .runEnd _ | .runFault _ _ => true
  | .runStart | .agentStart | .agentEnd | .resultFollowUp _ | .turnStart | .turnEnd _ _
  | .messageStart _ | .messageUpdate _ | .messageEnd _ | .toolExecutionStart _ _ _
  | .toolExecutionEnd _ => false

/-- The event is one of the run itself, which execution never emits. -/
def AgentEvent.isLifecycle (event : AgentEvent) : Bool := event = .runStart || event.isTerminal

end Tile
