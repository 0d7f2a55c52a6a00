import Tile.Events
import Tile.Store.Models

/-!
# Runtime/History — run-local conversation buffering and replay healing

A run buffers the conversation twice: `working` is what the provider sees, `delta` what the run adds
to the committed history.  Every event is projected into both.
-/

namespace Tile

/-- The replayable conversation item carried by an event. -/
def conversationItemFor : AgentEvent → Option ConversationItem
  | .messageEnd turn => if turn.status ≠ .completed then none else some (.assistant turn)
  | .toolExecutionEnd outcome => some (.toolResult outcome.toolResultTurn)
  | .resultFollowUp message => some (.user message)
  | .runStart | .runEnd _ | .runFault _ _ | .agentStart | .agentEnd | .turnStart | .turnEnd _ _
  | .messageStart _ | .messageUpdate _ | .toolExecutionStart _ _ _ => none

theorem conversationItemFor_eq_toolResult {event : AgentEvent} {turn : ToolResultTurn} :
    conversationItemFor event = some (.toolResult turn) ↔
      ∃ outcome, event = .toolExecutionEnd outcome ∧ outcome.toolResultTurn = turn := by
  cases event <;> simp [conversationItemFor]

/-- Assistant tool calls without a corresponding result. -/
def unansweredToolCalls (items : List ConversationItem) : List ToolCallBlock :=
  let answered := (toolResultsOf items).map (·.callId)
  (toolCallsOf items).filter fun call => call.callId ∉ answered

/-- The result of a call that was interrupted. -/
def incompleteResult (call : ToolCallBlock) : ToolResultTurn where
  callId := call.callId
  toolName := call.name
  content := [.text "Tool execution did not complete."]
  isError := true

/-- Provider-visible working history and the provisional run delta. -/
structure RunHistory where
  working : List ConversationItem
  delta : List ConversationItem
  deriving DecidableEq

namespace RunHistory

/-- A run-local buffer from committed history and its prompt. -/
def start (committed : List HistoryItem) (prompt : String) : RunHistory where
  working := committed.map (·.item) ++ [.user { content := prompt }]
  delta := [.user { content := prompt }]

/-- Add items to both histories. -/
def extend (history : RunHistory) (items : List ConversationItem) : RunHistory where
  working := history.working ++ items
  delta := history.delta ++ items

/-- Project one replayable event payload into both local histories. -/
def observe (history : RunHistory) (event : AgentEvent) : RunHistory :=
  history.extend (conversationItemFor event).toList

/-- Append error results for tool calls interrupted before completion. -/
def heal (history : RunHistory) : RunHistory :=
  history.extend <| (unansweredToolCalls history.delta).map fun call =>
    .toolResult (incompleteResult call)

/-- The two histories are one conversation: `working` is the committed history, then the delta. -/
def Extends (history : RunHistory) (committed : List ConversationItem) : Prop :=
  history.working = committed ++ history.delta

theorem extends_start (committed : List HistoryItem) (prompt : String) :
    (start committed prompt).Extends (committed.map (·.item)) := rfl

theorem Extends.extend {history : RunHistory} {committed : List ConversationItem}
    (h : history.Extends committed) (items : List ConversationItem) :
    (history.extend items).Extends committed := by
  rw [Extends, RunHistory.extend, show history.working = _ from h, List.append_assoc]

@[simp] theorem extend_nil (history : RunHistory) : history.extend [] = history := by
  simp [extend]

end RunHistory

end Tile
