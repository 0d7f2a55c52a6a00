import Tile.Types.Json

/-!
# Types/StreamEvents — provider stream events and assistant blocks

The provider-neutral events one assistant stream is made of, and the replayable blocks they build:
text, reasoning and tool calls, each with optional provider metadata.
-/

namespace Tile

/-- `value or default`, for an optional string. -/
def orElse (value : Option String) (default : String) : String :=
  match value with
  | some value => if value = "" then default else value
  | none => default

/-- Why the provider stopped. -/
inductive StopReason where
  | stop | length | toolUse | error | aborted
  deriving Repr, DecidableEq, Inhabited

/-- Provider and model that produced an assistant turn. -/
structure ProviderSource where
  provider : String
  model : Option String := none
  deriving Repr, DecidableEq, Inhabited

/-- Opaque provider-owned metadata needed for compatible replay. -/
structure ProviderMetadata where
  data : JsonObject := []
  deriving Repr, DecidableEq

/-- Build metadata from provider values, omitting absent entries; no entry, no metadata. -/
def ProviderMetadata.fromValues (values : List (String × Option String)) :
    Option ProviderMetadata :=
  let data := values.filterMap fun (key, value) => value.map fun v => (key, Json.str v)
  if data.isEmpty then none else some { data }

/-- A string metadata value, when present. -/
def ProviderMetadata.stringValue (metadata : ProviderMetadata) (key : String) : Option String :=
  match JsonObject.get? metadata.data key with
  | some (.str value) => some value
  | _ => none

/-- Replayable assistant text block. -/
structure TextBlock where
  providerMetadata : Option ProviderMetadata := none
  text : String
  deriving Repr, DecidableEq

/-- Replayable assistant reasoning block. -/
structure ReasoningBlock where
  providerMetadata : Option ProviderMetadata := none
  summaryText : String
  deriving Repr, DecidableEq

/-- Replayable assistant tool-call block. -/
structure ToolCallBlock where
  providerMetadata : Option ProviderMetadata := none
  callId : String
  name : String
  arguments : JsonObject := []
  deriving Repr, DecidableEq

/-- A replayable content block of an assistant turn. -/
inductive AssistantBlock where
  | text (block : TextBlock)
  | reasoning (block : ReasoningBlock)
  | toolCall (block : ToolCallBlock)
  deriving Repr, DecidableEq

/-- The tool call a block is, if it is one. -/
def AssistantBlock.toolCall? : AssistantBlock → Option ToolCallBlock
  | .toolCall block => some block
  | .text _ | .reasoning _ => none

@[simp] theorem AssistantBlock.toolCall?_eq_some {block : AssistantBlock} {call : ToolCallBlock} :
    block.toolCall? = some call ↔ block = .toolCall call := by
  cases block <;> simp [toolCall?]

/-- `metadata_string`, shared by the three kinds of block. -/
def metadataString (metadata : Option ProviderMetadata) (key : String) : Option String :=
  metadata.bind (·.stringValue key)

/-- The updates of one assistant message; `contentIndex` names the block an update is about. -/
inductive StreamUpdateEvent where
  | reasoningStart (contentIndex : Nat)
  | reasoningDelta (contentIndex : Nat) (delta : String)
  | reasoningEnd (contentIndex : Nat) (block : ReasoningBlock)
  | textStart (contentIndex : Nat)
  | textDelta (contentIndex : Nat) (delta : String)
  | textEnd (contentIndex : Nat) (block : TextBlock)
  | toolCallStart (contentIndex : Nat) (callId name : String)
  | toolCallDelta (contentIndex : Nat) (delta : String)
  | toolCallEnd (contentIndex : Nat) (block : ToolCallBlock)
  deriving Repr, DecidableEq

/-- Marks successful provider stream completion. -/
structure StreamDoneEvent where
  source : ProviderSource
  responseId : Option String := none
  stopReason : StopReason
  blocks : List AssistantBlock := []
  deriving Repr, DecidableEq

/-- Marks failed provider stream completion. -/
structure StreamErrorEvent where
  source : ProviderSource
  responseId : Option String := none
  stopReason : StopReason := .error
  errorMessage : String
  blocks : List AssistantBlock := []
  deriving Repr, DecidableEq

/-- An event of the neutral stream. -/
inductive ProviderStreamEvent where
  | streamStart (source : ProviderSource) (responseId : String)
  | update (event : StreamUpdateEvent)
  | done (event : StreamDoneEvent)
  | error (event : StreamErrorEvent)
  deriving Repr, DecidableEq

end Tile
