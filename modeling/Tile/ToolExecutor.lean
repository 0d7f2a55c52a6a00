import Tile.Library.Effect
import Tile.Text.PyStr
import Tile.Types.Tools

/-!
# ToolExecutor — the boundary for model-requested tool calls

A call is resolved by name, its arguments are validated, and the tool runs.  What the tool does is
the environment's: `ToolAnswer`.  Every ordinary exception becomes an outcome; only a cancellation,
or an exception that is none of Python's `Exception`, gets past the executor.
-/

namespace Tile

/-- A raised exception, other than a cancellation. -/
structure PyException where
  typeName : String
  message : String
  turnFailed : Bool := false
  deriving Repr, DecidableEq

/-- How a task is stopped: by an exception, by its cancellation, or not yet at all: it is suspended,
and what it awaits has not come. -/
inductive Interrupt where
  | raised (error : PyException)
  | cancelled
  | pending
  deriving Repr, DecidableEq

/-- What validating arguments against an input model gives. -/
inductive Validation where
  | valid (params : ModelInstance)
  | invalid (issues : List ToolInputIssue)
  | raises (error : PyException)
  deriving Repr, DecidableEq

/-- The tools of the output contract, and all others. -/
inductive ToolFunction where
  | complete | fail | user
  deriving Repr, DecidableEq

/-- A provider-agnostic function tool definition. -/
structure ToolDefinition where
  name : String
  validate : JsonObject → Validation
  fn : ToolFunction := .user

/-- What a tool function does when it is awaited. -/
inductive ToolAnswer where
  | returns (result : ToolResult)
  | toolError (message : String) (details : Option ToolDetails)
  | raises (error : PyException)
  | escapes (interrupt : Interrupt)
  deriving Repr, DecidableEq

/-! ## The tools of the output contract -/

/-- A Pydantic model that a caller gives as the result type of a prompt. -/
structure ResultModel where
  validate : JsonObject → Validation
  /-- `model_json_schema()`. -/
  jsonSchema : Except PyException JsonObject
  /-- How Pydantic reports the `ValueError` of a tool definition's own check. -/
  validationError : String → PyException

namespace ResultModel

/-- Generate and cache the provider schema during tool construction. -/
def cacheJsonSchema (result : ResultModel) : Except PyException JsonObject := do
  let schema ← result.jsonSchema
  match JsonObject.get? schema "type" with
  | some (.str "object") => return schema
  | _ => .error (result.validationError "Tool input models must generate an object schema.")

/-- A root model of a list, say, has another one. -/
def HasObjectSchema (result : ResultModel) : Prop :=
  ∃ schema, result.jsonSchema = .ok schema ∧ JsonObject.get? schema "type" = some (.str "object")

theorem cacheJsonSchema_eq_ok {result : ResultModel} {schema : JsonObject} :
    result.cacheJsonSchema = .ok schema ↔
      result.jsonSchema = .ok schema ∧ JsonObject.get? schema "type" = some (.str "object") := by
  rw [cacheJsonSchema, except_bind_eq_ok]
  constructor
  · rintro ⟨cached, hcached, h⟩
    split at h
    next hobject =>
      obtain rfl := Except.ok.inj h
      exact ⟨hcached, hobject⟩
    · cases h
  · rintro ⟨hschema, hobject⟩
    refine ⟨schema, hschema, ?_⟩
    rw [hobject]
    rfl

/-- The complete tool, once its model has passed. -/
def completeDefinition (result : ResultModel) : ToolDefinition where
  name := COMPLETE_TOOL_NAME
  validate := result.validate
  fn := .complete

end ResultModel

/-- Build a complete tool that validates results against one schema. -/
def completeTool (result : ResultModel) : Except PyException ToolDefinition := do
  let _schema ← result.cacheJsonSchema
  return result.completeDefinition

theorem completeTool_eq_ok {result : ResultModel} {tool : ToolDefinition} :
    completeTool result = .ok tool ↔ result.HasObjectSchema ∧ tool = result.completeDefinition := by
  rw [completeTool, except_bind_eq_ok]
  constructor
  · rintro ⟨schema, hschema, htool⟩
    exact ⟨⟨schema, ResultModel.cacheJsonSchema_eq_ok.mp hschema⟩, (Except.ok.inj htool).symm⟩
  · rintro ⟨⟨schema, hschema⟩, rfl⟩
    exact ⟨schema, ResultModel.cacheJsonSchema_eq_ok.mpr hschema, rfl⟩

/-- Why arguments are no `FailInput`: its one field, then every other key. -/
def failInputIssues (arguments : JsonObject) : List ToolInputIssue :=
  let reason := [LocationPart.field "reason"]
  let field : List ToolInputIssue := match JsonObject.get? arguments "reason" with
    | some (.str _) => []
    | some _ => [⟨reason, "string_type", "Input should be a valid string"⟩]
    | none => [⟨reason, "missing", "Field required"⟩]
  let others := arguments.filter (·.1 ≠ "reason")
  field ++ others.map fun (key, _) =>
    ⟨[.field key], "extra_forbidden", "Extra inputs are not permitted"⟩

/-- The fail tool. -/
def failTool : ToolDefinition where
  name := FAIL_TOOL_NAME
  validate := fun arguments => match failInputIssues arguments with
    | [] => .valid { typeName := "FailInput", dump := some arguments }
    | issues => .invalid issues
  fn := .fail

/-- `params.reason`. -/
def failReason (params : ModelInstance) : String :=
  match params.dump.bind (JsonObject.get? · "reason") with
  | some (.str reason) => reason
  | _ => ""

/-! ## Executors -/

/-- Render a Pydantic issue location as a familiar field path. -/
def formatLocation (location : List LocationPart) : String :=
  let rendered := location.foldl (fun rendered part => match part with
    | .index position => rendered ++ s!"[{position}]"
    | .field name => if rendered = "" then name else rendered ++ s!".{name}") ""
  if rendered = "" then "arguments" else rendered

/-- Render validation issues as concise model-visible correction text. -/
def formatValidationFailure (toolName : String) (issues : List ToolInputIssue) : String :=
  "\n".intercalate <| s!"Invalid arguments for tool '{toolName}':" ::
    issues.map fun issue => s!"- {formatLocation issue.location}: {issue.message}"

/-- `s.strip()`. -/
def stripSpace (s : String) : String :=
  let isSpace (c : Char) : Bool := PyStr.isSpace (Fin.ofNat _ c.toNat)
  String.ofList (((s.toList.dropWhile isSpace).reverse.dropWhile isSpace).reverse)

/-- Executes model-requested tools; `lower` is `str.lower`. -/
structure ToolExecutor where
  lower : String → String
  tools : List ToolDefinition

namespace ToolExecutor

/-- The constructor rejects case-insensitive duplicate tool names. -/
def create (lower : String → String) (tools : List ToolDefinition) :
    Except PyException ToolExecutor :=
  let duplicate := tools.zipIdx.find? fun (tool, index) =>
    (tools.take index).any fun earlier => lower earlier.name = lower tool.name
  match duplicate with
  | some (tool, _) =>
    .error { typeName := "ValueError", message := s!"Duplicate tool name: {tool.name}" }
  | none => .ok { lower, tools }

variable (executor : ToolExecutor)

/-- Find a registered tool definition by case-insensitive name. -/
def getTool (toolName : String) : Option ToolDefinition :=
  executor.tools.find? fun tool =>
    executor.lower tool.name = stripSpace (executor.lower toolName)

/-- Resolve, validate, and invoke one model-requested tool. -/
def callTool (toolName : String) (arguments : JsonObject) (answer : ToolAnswer) : ToolAnswer :=
  match executor.getTool toolName with
  | none => .toolError s!"Tool '{toolName}' not found" none
  | some tool => match tool.validate arguments with
    | .raises error => .raises error
    | .invalid issues =>
      .toolError (formatValidationFailure tool.name issues)
        (some (.inputValidationFailure tool.name issues))
    | .valid params => match tool.fn with
      | .user => answer
      | .complete => .returns {
          content := [.text "Result recorded."]
          details := some (.complete params)
          terminate := true }
      | .fail => .returns {
          content := [.text "Failure recorded."]
          details := some (.fail (failReason params))
          terminate := true }

/-- Execute one tool request and return a normalized outcome. -/
def execute (callId toolName : String) (arguments : JsonObject) (answer : ToolAnswer) :
    Except Interrupt ToolExecutionOutcome :=
  match executor.callTool toolName arguments answer with
  | .returns result => .ok (.fromResult callId toolName result)
  | .toolError message details => .ok (.fromError callId toolName message details)
  | .raises error =>
    .ok (.fromError callId toolName error.message
      (some (.invocationFailure toolName error.typeName error.message)))
  | .escapes interrupt => .error interrupt

/-- Whatever a tool does, its outcome answers the call it was made for. -/
theorem execute_eq_ok {callId toolName : String} {arguments : JsonObject} {answer : ToolAnswer}
    {outcome : ToolExecutionOutcome}
    (h : executor.execute callId toolName arguments answer = .ok outcome) :
    outcome.toolResultTurn.callId = callId ∧ outcome.toolResultTurn.toolName = toolName := by
  rw [execute] at h
  split at h
  · exact Except.ok.inj h ▸ ⟨rfl, rfl⟩
  · exact Except.ok.inj h ▸ ⟨rfl, rfl⟩
  · exact Except.ok.inj h ▸ ⟨rfl, rfl⟩
  · cases h

end ToolExecutor

end Tile
