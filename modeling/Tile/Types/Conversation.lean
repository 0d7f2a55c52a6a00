import Tile.Types.StreamEvents

/-!
# Types/Conversation — the replayable conversation

A conversation is a list of user messages, finalized assistant turns and tool results.  A tool
result answers the assistant tool call with its `callId`.
-/

namespace Tile

/-- The image types a tool may return. -/
inductive ImageMimeType where
  | jpeg | png | gif | webp
  deriving Repr, DecidableEq, Inhabited

/-- A content block of a tool result. -/
inductive ToolResultContent where
  | text (text : String)
  | image (data : String) (mimeType : ImageMimeType)
  deriving Repr, DecidableEq

/-- How a turn ended. -/
inductive TurnStatus where
  | completed | aborted | error
  deriving Repr, DecidableEq, Inhabited

/-- A user-authored conversation turn. -/
structure UserMessage where
  content : String
  deriving Repr, DecidableEq

/-- A finalized assistant turn that can be replayed to a provider. -/
structure AssistantTurn where
  source : Option ProviderSource := none
  blocks : List AssistantBlock := []
  responseId : Option String := none
  stopReason : StopReason := .stop
  status : TurnStatus := .completed
  errorMessage : Option String := none
  deriving Repr, DecidableEq

/-- A completed assistant turn from a terminal stream event. -/
def AssistantTurn.fromStreamDone (event : StreamDoneEvent) : AssistantTurn where
  source := some event.source
  blocks := event.blocks
  responseId := event.responseId
  stopReason := event.stopReason
  status := .completed

/-- A failed assistant turn from a terminal stream event. -/
def AssistantTurn.fromStreamError (event : StreamErrorEvent) : AssistantTurn where
  source := some event.source
  blocks := event.blocks
  responseId := event.responseId
  stopReason := event.stopReason
  status := if event.stopReason = .aborted then .aborted else .error
  errorMessage := some event.errorMessage

/-- A failed turn is never a completed one, so it is never replayed. -/
theorem AssistantTurn.fromStreamError_status_ne (event : StreamErrorEvent) :
    (fromStreamError event).status ≠ .completed := by
  rw [fromStreamError]
  split <;> simp

/-- The tool calls of a turn, in block order. -/
def AssistantTurn.toolCalls (turn : AssistantTurn) : List ToolCallBlock :=
  turn.blocks.filterMap AssistantBlock.toolCall?

/-- A replayable tool result tied to a prior assistant tool call. -/
structure ToolResultTurn where
  callId : String
  toolName : String
  content : List ToolResultContent
  isError : Bool := false
  deriving Repr, DecidableEq

/-- A replayable item of the conversation, told apart by its role. -/
inductive ConversationItem where
  | user (message : UserMessage)
  | assistant (turn : AssistantTurn)
  | toolResult (turn : ToolResultTurn)
  deriving Repr, DecidableEq

/-- The role of an item, as the history table stores it. -/
inductive Role where
  | user | assistant | toolResult
  deriving Repr, DecidableEq

/-- The role of an item. -/
def ConversationItem.role : ConversationItem → Role
  | .user _ => .user
  | .assistant _ => .assistant
  | .toolResult _ => .toolResult

/-- The tool calls of a conversation, in order. -/
def toolCallsOf (items : List ConversationItem) : List ToolCallBlock :=
  items.flatMap fun
    | .assistant turn => turn.toolCalls
    | .user _ | .toolResult _ => []

/-- The tool results of a conversation, in order. -/
def toolResultsOf (items : List ConversationItem) : List ToolResultTurn :=
  items.filterMap fun
    | .toolResult turn => some turn
    | .user _ | .assistant _ => none

@[simp] theorem toolCallsOf_append (items items' : List ConversationItem) :
    toolCallsOf (items ++ items') = toolCallsOf items ++ toolCallsOf items' :=
  List.flatMap_append

@[simp] theorem toolResultsOf_append (items items' : List ConversationItem) :
    toolResultsOf (items ++ items') = toolResultsOf items ++ toolResultsOf items' :=
  List.filterMap_append

end Tile
