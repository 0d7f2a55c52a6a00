import Tile.Result

/-!
# Types/Tools — tools, their results and the outcome of an execution

A tool returns a `ToolResult` or raises; either becomes a `ToolExecutionOutcome`, whose result turn
answers the call in the conversation.
-/

namespace Tile

/-- A step of a Pydantic issue's location. -/
inductive LocationPart where
  | field (name : String)
  | index (position : Int)
  deriving Repr, DecidableEq

/-- One stable, serializable model-input validation issue. -/
structure ToolInputIssue where
  location : List LocationPart
  code : String
  message : String
  deriving Repr, DecidableEq

/-- Result metadata: the runtime's own kinds, and those of other tools. -/
inductive ToolDetails where
  | complete (value : ModelInstance)
  | fail (reason : String)
  | inputValidationFailure (toolName : String) (issues : List ToolInputIssue)
  | invocationFailure (toolName exceptionType message : String)
  | other (type : String) (data : JsonObject)
  deriving Repr, DecidableEq

/-- Provider-neutral successful tool execution result. -/
structure ToolResult where
  content : List ToolResultContent
  details : Option ToolDetails := none
  terminate : Bool := false
  deriving Repr, DecidableEq

/-- Full runtime outcome for a tool execution. -/
structure ToolExecutionOutcome where
  toolResultTurn : ToolResultTurn
  details : Option ToolDetails := none
  terminate : Bool := false
  deriving Repr, DecidableEq

namespace ToolExecutionOutcome

/-- The execution outcome of a raw tool result. -/
def fromResult (callId toolName : String) (result : ToolResult) : ToolExecutionOutcome where
  toolResultTurn := { callId, toolName, content := result.content }
  details := result.details
  terminate := result.terminate

/-- A model-visible failed execution outcome. -/
def fromError (callId toolName message : String) (details : Option ToolDetails) :
    ToolExecutionOutcome where
  toolResultTurn := { callId, toolName, content := [.text message], isError := true }
  details := details

end ToolExecutionOutcome

end Tile
