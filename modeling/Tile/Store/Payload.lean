import Tile.Result

/-!
# Store/Payload — the stored JSON of conversation items and outcomes

What the type adapters of the store write for an item or an outcome and accept when they read it
back.  A field with a default may be absent, a literal field must match, extra keys are ignored, an
undiscriminated union takes an alternative that accepts.  Validation of a value undoes its dump
(`itemOfJson_itemToJson`, `outcomeOfJson_of_dumpOutcome`); what is read back from its text is the
value **exactly when the parser reads the text** (`loadConversationItem_itemToJson`,
`loadOutcome_of_dumpOutcome`).
-/

namespace Tile

/-! ## Fields -/

/-- `None` is stored as `null`. -/
def Json.ofOption {α : Type} (encode : α → Json) : Option α → Json
  | none => .null
  | some a => encode a

/-- `str`. -/
def Json.string? : Json → Option String
  | .str s => some s
  | _ => none

/-- `bool`. -/
def Json.bool? : Json → Option Bool
  | .bool b => some b
  | _ => none

/-- `dict[str, Any]`. -/
def Json.object? : Json → Option JsonObject
  | .obj pairs => some pairs
  | _ => none

/-- `T | None`. -/
def Json.optional? {α : Type} (decode : Json → Option α) : Json → Option (Option α)
  | .null => some none
  | value => (decode value).map some

/-- `list[T]`. -/
def Json.list? {α : Type} (decode : Json → Option α) : Json → Option (List α)
  | .arr items => items.mapM decode
  | _ => none

/-- A field without a default. -/
def JsonObject.required {α : Type} (object : JsonObject) (key : String)
    (decode : Json → Option α) : Option α :=
  (object.get? key).bind decode

/-- A field with a default. -/
def JsonObject.withDefault {α : Type} (object : JsonObject) (key : String) (default : α)
    (decode : Json → Option α) : Option α :=
  match object.get? key with
  | none => some default
  | some value => decode value

/-- A literal tag with itself as default. -/
def JsonObject.tagged (object : JsonObject) (key tag : String) : Option Unit :=
  object.withDefault key () fun value => if value = .str tag then some () else none

/-- A list is read back if its items are. -/
theorem Json.list?_map {α : Type} {encode : α → Json} {decode : Json → Option α}
    (h : ∀ a, decode (encode a) = some a) (items : List α) :
    Json.list? decode (.arr (items.map encode)) = some items := by
  rw [Json.list?, List.mapM_map]
  induction items with
  | nil => rfl
  | cons a rest ih =>
    rw [List.mapM_cons, ih, Function.comp_apply, h a]
    rfl

/-- An optional value is read back if the value is, and is not stored as `null`. -/
theorem Json.optional?_ofOption {α : Type} {encode : α → Json} {decode : Json → Option α}
    (h : ∀ a, decode (encode a) = some a) (hnull : ∀ a, encode a ≠ .null) (value : Option α) :
    Json.optional? decode (.ofOption encode value) = some value := by
  cases value with
  | none => rfl
  | some a =>
    have ha := h a
    have hne := hnull a
    rw [Json.ofOption]
    cases hj : encode a <;> simp_all [Json.optional?]

/-- An optional string is read back. -/
theorem Json.optional?_string (value : Option String) :
    Json.optional? Json.string? (.ofOption .str value) = some value := by
  cases value <;> rfl

/-! ## Enumerations, by their stored names -/

/-- The values of `StopReason`. -/
def StopReason.name : StopReason → String
  | .stop => "stop"
  | .length => "length"
  | .toolUse => "tool_use"
  | .error => "error"
  | .aborted => "aborted"

/-- Validation of a `StopReason`. -/
def StopReason.ofName? : Json → Option StopReason
  | .str "stop" => some .stop
  | .str "length" => some .length
  | .str "tool_use" => some .toolUse
  | .str "error" => some .error
  | .str "aborted" => some .aborted
  | _ => none

/-- The values of `TurnStatus`. -/
def TurnStatus.name : TurnStatus → String
  | .completed => "completed"
  | .aborted => "aborted"
  | .error => "error"

/-- Validation of a `TurnStatus`. -/
def TurnStatus.ofName? : Json → Option TurnStatus
  | .str "completed" => some .completed
  | .str "aborted" => some .aborted
  | .str "error" => some .error
  | _ => none

/-- The values of `ImageMimeType`. -/
def ImageMimeType.name : ImageMimeType → String
  | .jpeg => "image/jpeg"
  | .png => "image/png"
  | .gif => "image/gif"
  | .webp => "image/webp"

/-- Validation of an `ImageMimeType`. -/
def ImageMimeType.ofName? : Json → Option ImageMimeType
  | .str "image/jpeg" => some .jpeg
  | .str "image/png" => some .png
  | .str "image/gif" => some .gif
  | .str "image/webp" => some .webp
  | _ => none

/-- The values of `ExecutionFailureOrigin`. -/
def ExecutionFailureOrigin.name : ExecutionFailureOrigin → String
  | .turn => "turn"
  | .execution => "execution"

/-- Validation of an `ExecutionFailureOrigin`. -/
def ExecutionFailureOrigin.ofName? : Json → Option ExecutionFailureOrigin
  | .str "turn" => some .turn
  | .str "execution" => some .execution
  | _ => none

/-- The tags of the union of conversation items. -/
def Role.name : Role → String
  | .user => "user"
  | .assistant => "assistant"
  | .toolResult => "tool_result"

@[simp] theorem StopReason.ofName?_name (r : StopReason) : ofName? (.str r.name) = some r := by
  cases r <;> rfl

@[simp] theorem TurnStatus.ofName?_name (s : TurnStatus) : ofName? (.str s.name) = some s := by
  cases s <;> rfl

@[simp] theorem ImageMimeType.ofName?_name (m : ImageMimeType) :
    ofName? (.str m.name) = some m := by
  cases m <;> rfl

@[simp] theorem ExecutionFailureOrigin.ofName?_name (o : ExecutionFailureOrigin) :
    ofName? (.str o.name) = some o := by
  cases o <;> rfl

/-! ## Assistant blocks -/

/-- The dump of a `ProviderSource`. -/
def ProviderSource.toJson (source : ProviderSource) : Json :=
  .obj [("provider", .str source.provider), ("model", .ofOption .str source.model)]

/-- Validation of a `ProviderSource`. -/
def ProviderSource.ofJson? (value : Json) : Option ProviderSource := do
  let object ← value.object?
  let provider ← object.required "provider" Json.string?
  let model ← object.withDefault "model" none (Json.optional? Json.string?)
  return { provider, model }

/-- The dump of a `ProviderMetadata`. -/
def ProviderMetadata.toJson (metadata : ProviderMetadata) : Json :=
  .obj [("data", .obj metadata.data)]

/-- Validation of a `ProviderMetadata`. -/
def ProviderMetadata.ofJson? (value : Json) : Option ProviderMetadata := do
  let object ← value.object?
  let data ← object.withDefault "data" [] Json.object?
  return { data }

/-- The dump of a block; the base class's field comes first. -/
def AssistantBlock.toJson : AssistantBlock → Json
  | .text block => .obj
    [("provider_metadata", .ofOption ProviderMetadata.toJson block.providerMetadata),
      ("type", .str "text"), ("text", .str block.text)]
  | .reasoning block => .obj
    [("provider_metadata", .ofOption ProviderMetadata.toJson block.providerMetadata),
      ("type", .str "reasoning"), ("summary_text", .str block.summaryText)]
  | .toolCall block => .obj
    [("provider_metadata", .ofOption ProviderMetadata.toJson block.providerMetadata),
      ("type", .str "tool_call"), ("call_id", .str block.callId), ("name", .str block.name),
      ("arguments", .obj block.arguments)]

/-- The field that every block has. -/
def metadataOfJson? (object : JsonObject) : Option (Option ProviderMetadata) :=
  object.withDefault "provider_metadata" none (Json.optional? ProviderMetadata.ofJson?)

/-- Validation of a `TextBlock`. -/
def TextBlock.ofJson? (value : Json) : Option TextBlock := do
  let object ← value.object?
  let providerMetadata ← metadataOfJson? object
  object.tagged "type" "text"
  let text ← object.required "text" Json.string?
  return { providerMetadata, text }

/-- Validation of a `ReasoningBlock`. -/
def ReasoningBlock.ofJson? (value : Json) : Option ReasoningBlock := do
  let object ← value.object?
  let providerMetadata ← metadataOfJson? object
  object.tagged "type" "reasoning"
  let summaryText ← object.required "summary_text" Json.string?
  return { providerMetadata, summaryText }

/-- Validation of a `ToolCallBlock`. -/
def ToolCallBlock.ofJson? (value : Json) : Option ToolCallBlock := do
  let object ← value.object?
  let providerMetadata ← metadataOfJson? object
  object.tagged "type" "tool_call"
  let callId ← object.required "call_id" Json.string?
  let name ← object.required "name" Json.string?
  let arguments ← object.withDefault "arguments" [] Json.object?
  return { providerMetadata, callId, name, arguments }

/-- The block union has no discriminator. -/
def AssistantBlock.ofJson? (value : Json) : Option AssistantBlock :=
  ((TextBlock.ofJson? value).map .text).or
    (((ReasoningBlock.ofJson? value).map .reasoning).or
      ((ToolCallBlock.ofJson? value).map .toolCall))

@[simp] theorem ProviderSource.ofJson?_toJson (source : ProviderSource) :
    ofJson? source.toJson = some source := by
  simp [ofJson?, toJson, Json.object?, JsonObject.required, JsonObject.withDefault,
    JsonObject.get?_cons, Json.string?, Json.optional?_string]

@[simp] theorem ProviderMetadata.ofJson?_toJson (metadata : ProviderMetadata) :
    ofJson? metadata.toJson = some metadata := rfl

/-- A block is read back: of the alternatives only its own accepts its tag. -/
@[simp] theorem AssistantBlock.ofJson?_toJson (block : AssistantBlock) :
    ofJson? block.toJson = some block := by
  have hmetadata := Json.optional?_ofOption ProviderMetadata.ofJson?_toJson
    (fun _ => by simp [ProviderMetadata.toJson])
  cases block <;>
    simp [ofJson?, toJson, TextBlock.ofJson?, ReasoningBlock.ofJson?, ToolCallBlock.ofJson?,
      metadataOfJson?, Json.object?, JsonObject.required, JsonObject.withDefault,
      JsonObject.tagged, JsonObject.get?_cons, Json.string?, hmetadata]

/-! ## Conversation items -/

/-- The dump of a content block of a tool result. -/
def ToolResultContent.toJson : ToolResultContent → Json
  | .text s => .obj [("type", .str "text"), ("text", .str s)]
  | .image data mimeType =>
    .obj [("type", .str "image"), ("data", .str data), ("mime_type", .str mimeType.name)]

/-- Validation of a text content block. -/
def toolTextContentOfJson? (value : Json) : Option ToolResultContent := do
  let object ← value.object?
  object.tagged "type" "text"
  let text ← object.required "text" Json.string?
  return .text text

/-- Validation of an image content block. -/
def toolImageContentOfJson? (value : Json) : Option ToolResultContent := do
  let object ← value.object?
  object.tagged "type" "image"
  let data ← object.required "data" Json.string?
  let mimeType ← object.required "mime_type" ImageMimeType.ofName?
  return .image data mimeType

/-- The content union has no discriminator. -/
def ToolResultContent.ofJson? (value : Json) : Option ToolResultContent :=
  (toolTextContentOfJson? value).or (toolImageContentOfJson? value)

@[simp] theorem ToolResultContent.ofJson?_toJson (content : ToolResultContent) :
    ofJson? content.toJson = some content := by
  cases content <;>
    simp [ofJson?, toJson, toolTextContentOfJson?, toolImageContentOfJson?, Json.object?,
      JsonObject.required, JsonObject.withDefault, JsonObject.tagged, JsonObject.get?_cons,
      Json.string?]

/-- `dump_conversation_item`. -/
def itemToJson : ConversationItem → Json
  | .user message => .obj [("role", .str "user"), ("content", .str message.content)]
  | .assistant turn => .obj
    [("role", .str "assistant"), ("source", .ofOption ProviderSource.toJson turn.source),
      ("blocks", .arr (turn.blocks.map AssistantBlock.toJson)),
      ("response_id", .ofOption .str turn.responseId),
      ("stop_reason", .str turn.stopReason.name), ("status", .str turn.status.name),
      ("error_message", .ofOption .str turn.errorMessage)]
  | .toolResult turn => .obj
    [("role", .str "tool_result"), ("call_id", .str turn.callId),
      ("tool_name", .str turn.toolName),
      ("content", .arr (turn.content.map ToolResultContent.toJson)),
      ("is_error", .bool turn.isError)]

/-- Validation of a `UserMessage`. -/
def UserMessage.ofJson? (object : JsonObject) : Option UserMessage := do
  let content ← object.required "content" Json.string?
  return { content }

/-- Validation of an `AssistantTurn`. -/
def AssistantTurn.ofJson? (object : JsonObject) : Option AssistantTurn := do
  let source ← object.withDefault "source" none (Json.optional? ProviderSource.ofJson?)
  let blocks ← object.withDefault "blocks" [] (Json.list? AssistantBlock.ofJson?)
  let responseId ← object.withDefault "response_id" none (Json.optional? Json.string?)
  let stopReason ← object.withDefault "stop_reason" .stop StopReason.ofName?
  let status ← object.withDefault "status" .completed TurnStatus.ofName?
  let errorMessage ← object.withDefault "error_message" none (Json.optional? Json.string?)
  return { source, blocks, responseId, stopReason, status, errorMessage }

/-- Validation of a `ToolResultTurn`. -/
def ToolResultTurn.ofJson? (object : JsonObject) : Option ToolResultTurn := do
  let callId ← object.required "call_id" Json.string?
  let toolName ← object.required "tool_name" Json.string?
  let content ← object.required "content" (Json.list? ToolResultContent.ofJson?)
  let isError ← object.withDefault "is_error" false Json.bool?
  return { callId, toolName, content, isError }

/-- Validation of a stored item; `role` discriminates the union. -/
def itemOfJson? (value : Json) : Option ConversationItem := do
  let object ← value.object?
  let role ← object.required "role" Json.string?
  if role = "user" then
    return .user (← UserMessage.ofJson? object)
  else if role = "assistant" then
    return .assistant (← AssistantTurn.ofJson? object)
  else if role = "tool_result" then
    return .toolResult (← ToolResultTurn.ofJson? object)
  else none

/-- **A stored item is read back as it was written.** -/
theorem itemOfJson_itemToJson (item : ConversationItem) :
    itemOfJson? (itemToJson item) = some item := by
  have hsource := Json.optional?_ofOption ProviderSource.ofJson?_toJson
    (fun _ => by simp [ProviderSource.toJson])
  have hblocks := Json.list?_map AssistantBlock.ofJson?_toJson
  have hcontent := Json.list?_map ToolResultContent.ofJson?_toJson
  cases item <;>
    simp [itemOfJson?, itemToJson, UserMessage.ofJson?, AssistantTurn.ofJson?,
      ToolResultTurn.ofJson?, Json.object?, JsonObject.required, JsonObject.withDefault,
      JsonObject.get?_cons, Json.string?, Json.bool?, Json.optional?_string,
      hsource, hblocks, hcontent]

/-! ## Outcomes -/

/-- The dump of the value of a completed run; a model instance may refuse. -/
def CompletedValue.dump : CompletedValue → Option Json
  | .text s => some (.str s)
  | .object o => some (.obj o)
  | .model value => value.dump.map .obj

/-- The value union, tried left to right; a stored model is read as its object. -/
def CompletedValue.ofJson? : Json → Option CompletedValue
  | .str s => some (.text s)
  | .obj o => some (.object o)
  | _ => none

/-- The dump of a cause of failure. -/
def FailureCause.toJson : FailureCause → Json
  | .agentFailure reason => .obj [("type", .str "agent_failure"), ("reason", .str reason)]
  | .executionFailure origin exceptionType message => .obj
    [("type", .str "execution_failure"), ("origin", .str origin.name),
      ("exception_type", .str exceptionType), ("message", .str message)]

/-- `type` discriminates the union. -/
def FailureCause.ofJson? (value : Json) : Option FailureCause := do
  let object ← value.object?
  let tag ← object.required "type" Json.string?
  if tag = "agent_failure" then
    return .agentFailure (← object.required "reason" Json.string?)
  else if tag = "execution_failure" then
    return .executionFailure (← object.required "origin" ExecutionFailureOrigin.ofName?)
      (← object.required "exception_type" Json.string?) (← object.required "message" Json.string?)
  else none

@[simp] theorem FailureCause.ofJson?_toJson (cause : FailureCause) :
    ofJson? cause.toJson = some cause := by
  cases cause <;>
    simp [ofJson?, toJson, Json.object?, JsonObject.required, JsonObject.get?_cons, Json.string?]

/-- `_dump_outcome`; absent when a model instance cannot be serialized. -/
def dumpOutcome : RunOutcome → Option Json
  | .completed value => value.dump.map fun v => .obj [("type", .str "completed"), ("value", v)]
  | .failed cause => some (.obj [("type", .str "failed"), ("cause", cause.toJson)])
  | .aborted .cancelled => some (.obj [("type", .str "aborted"), ("reason", .str "cancelled")])

/-- Validation of a `Completed`. -/
def completedOfJson? (object : JsonObject) : Option RunOutcome := do
  object.tagged "type" "completed"
  return .completed (← object.required "value" CompletedValue.ofJson?)

/-- Validation of a `Failed`. -/
def failedOfJson? (object : JsonObject) : Option RunOutcome := do
  object.tagged "type" "failed"
  return .failed (← object.required "cause" FailureCause.ofJson?)

/-- Validation of an `Aborted`. -/
def abortedOfJson? (object : JsonObject) : Option RunOutcome := do
  object.tagged "type" "aborted"
  object.tagged "reason" "cancelled"
  return .aborted .cancelled

/-- Validation of a stored outcome. -/
def outcomeOfJson? (value : Json) : Option RunOutcome := do
  let object ← value.object?
  (completedOfJson? object).or ((failedOfJson? object).or (abortedOfJson? object))

/-- **A dumped outcome is validated to its plain form.** -/
theorem outcomeOfJson_of_dumpOutcome {outcome : RunOutcome} {payload : Json}
    (h : dumpOutcome outcome = some payload) : outcomeOfJson? payload = some outcome.plain := by
  match outcome, h with
  | .completed (.text text), h =>
    obtain rfl := Option.some.inj h
    simp [outcomeOfJson?, completedOfJson?, Json.object?, JsonObject.tagged, JsonObject.withDefault,
      JsonObject.required, JsonObject.get?_cons, CompletedValue.ofJson?, RunOutcome.plain]
  | .completed (.object object), h =>
    obtain rfl := Option.some.inj h
    simp [outcomeOfJson?, completedOfJson?, Json.object?, JsonObject.tagged, JsonObject.withDefault,
      JsonObject.required, JsonObject.get?_cons, CompletedValue.ofJson?, RunOutcome.plain]
  | .completed (.model value), h =>
    obtain ⟨object, hdump, rfl⟩ : ∃ object, value.dump = some object ∧
        Json.obj [("type", .str "completed"), ("value", .obj object)] = payload := by
      simpa [dumpOutcome, CompletedValue.dump] using h
    simp [outcomeOfJson?, completedOfJson?, Json.object?, JsonObject.tagged, JsonObject.withDefault,
      JsonObject.required, JsonObject.get?_cons, CompletedValue.ofJson?, RunOutcome.plain, hdump]
  | .failed cause, h =>
    obtain rfl := Option.some.inj h
    simp [outcomeOfJson?, completedOfJson?, failedOfJson?, Json.object?, JsonObject.tagged,
      JsonObject.withDefault, JsonObject.required, JsonObject.get?_cons, RunOutcome.plain]
  | .aborted .cancelled, h =>
    obtain rfl := Option.some.inj h
    simp [outcomeOfJson?, completedOfJson?, failedOfJson?, abortedOfJson?, Json.object?,
      JsonObject.tagged, JsonObject.withDefault, JsonObject.required, JsonObject.get?_cons,
      RunOutcome.plain]

/-- The plain form of an outcome is stored as the outcome is. -/
theorem dumpOutcome_plain {outcome : RunOutcome} {payload : Json}
    (h : dumpOutcome outcome = some payload) : dumpOutcome outcome.plain = some payload := by
  match outcome, h with
  | .completed (.text _), h | .completed (.object _), h | .failed _, h | .aborted _, h => exact h
  | .completed (.model value), h =>
    obtain ⟨object, hdump, rfl⟩ : ∃ object, value.dump = some object ∧
        Json.obj [("type", .str "completed"), ("value", .obj object)] = payload := by
      simpa [dumpOutcome, CompletedValue.dump] using h
    simp [RunOutcome.plain, hdump, dumpOutcome, CompletedValue.dump]

/-! ## Reading back -/

section Reading

variable [JsonParser]

/-- `validate_json`: the text of the value is parsed, and the value is validated. -/
def validateJson {α : Type} (validate : Json → Option α) (payload : Json) : Option α :=
  if payload.Parses then validate payload else none

/-- A value comes back exactly when the text parses and its value validates. -/
theorem validateJson_eq_some {α : Type} {validate : Json → Option α} {payload : Json} {a : α} :
    validateJson validate payload = some a ↔ payload.Parses ∧ validate payload = some a := by
  rw [validateJson]
  split <;> simp [*]

/-- `_CONVERSATION_ITEM_ADAPTER.validate_json`. -/
def loadConversationItem (payload : Json) : Option ConversationItem :=
  validateJson itemOfJson? payload

/-- `_load_outcome`. -/
def loadOutcome (payload : Json) : Option RunOutcome := validateJson outcomeOfJson? payload

/-- The parser reads what is stored of the item. -/
def ConversationItem.Legible (item : ConversationItem) : Prop := (itemToJson item).Parses

/-- The parser reads what is stored of the outcome, if it serializes. -/
def RunOutcome.Legible (outcome : RunOutcome) : Prop :=
  ∀ payload, dumpOutcome outcome = some payload → payload.Parses

instance (item : ConversationItem) : Decidable item.Legible := by
  unfold ConversationItem.Legible
  infer_instance

instance (outcome : RunOutcome) : Decidable outcome.Legible :=
  match h : dumpOutcome outcome with
  | none => isTrue fun payload hdump => by simp [h] at hdump
  | some payload => decidable_of_iff payload.Parses (by simp [RunOutcome.Legible, h])

/-- **A stored item is read back exactly when it is legible**, and then as it was written. -/
theorem loadConversationItem_itemToJson {item item' : ConversationItem} :
    loadConversationItem (itemToJson item) = some item' ↔ item.Legible ∧ item' = item := by
  rw [loadConversationItem, validateJson_eq_some, itemOfJson_itemToJson, Option.some.injEq,
    eq_comm]
  rfl

/-- **A stored outcome is read back exactly when its text parses**, and then in its plain form. -/
theorem loadOutcome_of_dumpOutcome {outcome outcome' : RunOutcome} {payload : Json}
    (h : dumpOutcome outcome = some payload) :
    loadOutcome payload = some outcome' ↔ payload.Parses ∧ outcome' = outcome.plain := by
  rw [loadOutcome, validateJson_eq_some, outcomeOfJson_of_dumpOutcome h, Option.some.injEq, eq_comm]

/-- What an abort stores is legible. -/
theorem RunOutcome.legible_aborted : (RunOutcome.aborted .cancelled).Legible := by
  intro payload h
  obtain rfl := Option.some.inj h
  exact ⟨JsonParser.recursionLimit_pos, by simp [Json.ints, Json.intsPairs]⟩

end Reading

/-- A turn with a tool call whose arguments nest deeper than Pydantic's parser reads. -/
def deepTurn : ConversationItem :=
  .assistant { blocks := [.toolCall
    { callId := "c", name := "save", arguments := [("a", .nested 219)] }] }

end Tile
