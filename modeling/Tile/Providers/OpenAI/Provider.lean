import Tile.Providers.OpenAI.SdkEventAdapter
import Tile.Providers.OpenAI.Serialization

/-!
# Providers/OpenAI/Provider — a response comes back as it was sent

    response ──normalizeSdkEvents──▸ ──assembleStream──▸ turn ──serializeHistoryItems──▸ items

The provider streams a response to the agent and sends it back with the next request.  What is sent
back of an output item is its replay (`ResponseOutputItem.replayed`): **each request of an agent
invocation is the previous one, followed by the output of the response to it and by the outputs of
its calls** (`requests_append_replies`).
-/

namespace Tile

/-- `OpenAIProvider.stream`, for the SDK's events of one response. -/
def openAIStream (loads : String → Option Json) (dumps : Json → String) (model : String)
    (events : List ResponseStreamEvent) : List ProviderStreamEvent :=
  assembleStream { provider := "openai", model := some model }
    (normalizeSdkEvents loads dumps events)

/-! ## What is sent back -/

/-- The request item that an output item is sent back as.  The arguments are sent as they were
parsed; the parts of a message are one text. -/
def ResponseOutputItem.replayed (loads : String → Option Json) :
    ResponseOutputItem → Option InputItem
  | .reasoning item => some (.reasoning item.dump)
  | .message item =>
    some (.message item.id (extractMessagePhase item) (joinMessageText item.content))
  | .functionCall item => some (.functionCall (orElse item.id item.callId) item.callId item.name
      (parseToolCallArguments loads item.arguments))
  | .other _ => none

namespace StreamedResponse

variable (response : StreamedResponse)

def replayed (loads : String → Option Json) : List InputItem :=
  response.items.filterMap fun item => item.done.replayed loads

/-- The ids of the response's calls, in order. -/
def callIds : List String :=
  response.items.filterMap fun
    | .functionCall item => some item.done.callId
    | .reasoning _ | .message _ => none

/-- The SDK reads the reasoning items back that were dumped, and messages have an id. -/
structure Sound (deserialize : String → Except InvalidReasoning Json) (dumps : Json → String) :
    Prop where
  dumps_ne : ∀ item, .reasoning item ∈ response.items.map StreamedItem.done → dumps item.dump ≠ ""
  deserialize_dumps : ∀ item, .reasoning item ∈ response.items.map StreamedItem.done →
    deserialize (dumps item.dump) = .ok item.dump
  id_ne : ∀ item, .message item ∈ response.items.map StreamedItem.done → item.id ≠ ""

end StreamedResponse

/-! ## One turn -/

section Turn

variable {loads : String → Option Json} {dumps : Json → String}
  {deserialize : String → Except InvalidReasoning Json} {response : StreamedResponse}

/-- The done event of a response's stream. -/
def StreamedResponse.doneEvent (loads : String → Option Json) (dumps : Json → String)
    (model : String) (response : StreamedResponse) : StreamDoneEvent where
  source := { provider := "openai", model := some model }
  responseId := some response.responseId
  stopReason := response.stopReason
  blocks := response.items.map fun item => (item.responseItem loads dumps).block

/-- The turn that the agent makes of a response. -/
def StreamedResponse.turn (loads : String → Option Json) (dumps : Json → String) (model : String)
    (response : StreamedResponse) : AssistantTurn :=
  .fromStreamDone (response.doneEvent loads dumps model)

theorem StreamedResponse.stopReason_ne_error (response : StreamedResponse) :
    response.stopReason ≠ .error := by
  have hbase : extractBaseStopReason response.incomplete ≠ .error := by
    have h := response.unfiltered
    cases hincomplete : response.incomplete with
    | none => simp [extractBaseStopReason]
    | some reason =>
      have hreason : reason ≠ some "content_filter" := fun hreason =>
        h (by rw [hincomplete, hreason])
      simp [extractBaseStopReason, hreason]
  unfold stopReason extractStopReason
  split
  · simp
  · exact hbase

/-- The stream of a response: its start, the updates of its items and its done event. -/
theorem openAIStream_response (model : String) {events : List ResponseStreamEvent}
    (h : events.filter (!·.isIgnored) = response.events) :
    openAIStream loads dumps model events
      = .streamStart { provider := "openai", model := some model } response.responseId
        :: ((itemUpdates 0 (response.items.map (StreamedItem.responseItem loads dumps))).map .update
          ++ [.done (response.doneEvent loads dumps model)]) := by
  have hitems := assembleFrom_items [response.responseEnding.event]
    (response.items.map (StreamedItem.responseItem loads dumps))
    { source := { provider := "openai", model := some model }
      responseId := some response.responseId } rfl
  have herror := response.stopReason_ne_error
  rw [openAIStream, normalizeSdkEvents_response loads dumps h, assembleStream, responseEvents,
    assembleFrom, yieldStreamEvent, StreamAssemblyState.recordCreatedEvent, hitems,
    StreamedResponse.responseEnding, StreamedResponse.doneEvent]
  cases response.incomplete <;>
    simp [NormalizedEvent.isTerminal, ResponseEnding.event, assembleFrom, yieldStreamEvent,
      StreamAssemblyState.buildIncompleteEvent, StreamAssemblyState.buildStreamDoneEvent, herror,
      Function.comp_def]

theorem metadataString_fromValues_cons (key : String) (value : String)
    (rest : List (String × Option String)) :
    metadataString (ProviderMetadata.fromValues ((key, some value) :: rest)) key = some value := by
  simp [metadataString, ProviderMetadata.fromValues, ProviderMetadata.stringValue,
    JsonObject.get?_cons]

/-- The phase of a message survives its metadata. -/
theorem readProviderPhase_block (item : MessageItem) :
    readProviderPhase item.block = item.phase := by
  unfold readProviderPhase MessageItem.block
  cases item.phase with
  | none => simp [metadataString, ProviderMetadata.fromValues, ProviderMetadata.stringValue,
      JsonObject.get?]
  | some phase => cases phase <;> simp [metadataString, ProviderMetadata.fromValues,
      ProviderMetadata.stringValue, JsonObject.get?, MessagePhase.value]

/-- **One item comes back as it was sent**, wherever it stands in the conversation. -/
theorem serializeBlock_streamed (h : response.Sound deserialize dumps) {item : StreamedItem}
    (hitem : item ∈ response.items) (turnIndex blockIndex : Nat) :
    serializeBlock deserialize turnIndex blockIndex (item.responseItem loads dumps).block
      = .ok (item.done.replayed loads) := by
  have hdone : item.done ∈ response.items.map StreamedItem.done := List.mem_map_of_mem hitem
  cases item with
  | reasoning item =>
    have hne := h.dumps_ne _ hdone
    have hdeserialize := h.deserialize_dumps _ hdone
    have hsignature : orElse (metadataString (ProviderMetadata.fromValues
        [("reasoning_signature", some (serializeReasoningItem dumps item.done))])
        "reasoning_signature") "" = dumps item.done.dump := by
      rw [metadataString_fromValues_cons, serializeReasoningItem, orElse, if_neg hne]
    rw [StreamedItem.responseItem, ResponseItem.block, serializeBlock, ReasoningItem.block,
      hsignature]
    split
    next hempty => exact absurd hempty hne
    next => rw [hdeserialize]; rfl
  | message item =>
    have hne := h.id_ne _ hdone
    rw [StreamedItem.responseItem, ResponseItem.block, serializeBlock, serializeAssistantTextBlock,
      readProviderPhase_block, MessageItem.block, metadataString_fromValues_cons, orElse,
      if_neg hne]
    rfl
  | functionCall item =>
    have hid : metadataString (ProviderMetadata.fromValues
        [("provider_item_id", item.done.id)]) "provider_item_id" = item.done.id := by
      cases hid : item.done.id with
      | none => rfl
      | some id => rw [metadataString_fromValues_cons]
    rw [StreamedItem.responseItem, ResponseItem.block, serializeBlock,
      serializeAssistantToolCallBlock, ToolCallItem.block]
    simp only [ResponseFunctionToolCall.payload, hid]
    rfl

/-- **The output of a response comes back as it was sent.** -/
theorem serializeAssistantTurn_streamed (h : response.Sound deserialize dumps) (model : String)
    (turnIndex : Nat) :
    serializeAssistantTurn deserialize (response.turn loads dumps model) turnIndex
      = .ok (response.replayed loads) := by
  have hblocks : ∀ (items : List StreamedItem) (blockIndex : Nat), items ⊆ response.items →
      serializeBlocks deserialize turnIndex blockIndex
          (items.map fun item => (item.responseItem loads dumps).block)
        = .ok (items.filterMap fun item => item.done.replayed loads) := by
    intro items
    induction items with
    | nil => exact fun _ _ => rfl
    | cons item items ih =>
      intro blockIndex hsubset
      obtain ⟨hitem, hitems⟩ := List.cons_subset.mp hsubset
      rw [List.map_cons, serializeBlocks, serializeBlock_streamed h hitem, ih _ hitems]
      cases hreplayed : item.done.replayed loads with
      | none => simp only [List.filterMap_cons, hreplayed]; rfl
      | some replayed => simp only [List.filterMap_cons, hreplayed]; rfl
  exact hblocks response.items 0 fun _ => id

theorem toolCalls_streamed (model : String) :
    (response.turn loads dumps model).toolCalls.map (·.callId) = response.callIds := by
  rw [AssistantTurn.toolCalls, StreamedResponse.turn, AssistantTurn.fromStreamDone,
    StreamedResponse.doneEvent, StreamedResponse.callIds]
  induction response.items with
  | nil => rfl
  | cons item items ih =>
    cases item with
    | reasoning _ | message _ => exact ih
    | functionCall item => exact congrArg (item.done.callId :: ·) ih

end Turn

/-! ## A history and what is behind it -/

section History

variable {deserialize : String → Except InvalidReasoning Json}

/-- The completed turns of a history. -/
def completedTurns (items : List ConversationItem) : Nat :=
  items.countP fun
    | .assistant turn => turn.status = .completed
    | .user _ | .toolResult _ => false

@[simp] theorem completedTurns_user (message : UserMessage) (items : List ConversationItem) :
    completedTurns (.user message :: items) = completedTurns items :=
  List.countP_cons_of_neg (by simp)

@[simp] theorem completedTurns_toolResult (turn : ToolResultTurn) (items : List ConversationItem) :
    completedTurns (.toolResult turn :: items) = completedTurns items :=
  List.countP_cons_of_neg (by simp)

theorem completedTurns_assistant (turn : AssistantTurn) (items : List ConversationItem) :
    completedTurns (.assistant turn :: items)
      = completedTurns items + if turn.status = .completed then 1 else 0 := by
  simp [completedTurns, List.countP_cons]

/-- A history is serialized item by item, the turns counted on. -/
theorem serializeItems_append (rest : List ConversationItem) :
    ∀ (items : List ConversationItem) (index : Nat),
      serializeItems deserialize index (items ++ rest)
        = (do return (← serializeItems deserialize index items)
            ++ (← serializeItems deserialize (index + completedTurns items) rest))
  | [], index => by
    have hnone : completedTurns [] = 0 := rfl
    rw [List.nil_append, hnone, Nat.add_zero]
    cases h : serializeItems deserialize index rest <;> rfl
  | .user message :: items, index => by
    rw [List.cons_append, serializeItems, serializeItems_append rest items index, serializeItems,
      completedTurns_user]
    cases serializeItems deserialize index items <;>
      cases serializeItems deserialize (index + completedTurns items) rest <;> rfl
  | .toolResult turn :: items, index => by
    rw [List.cons_append, serializeItems, serializeItems_append rest items index, serializeItems,
      completedTurns_toolResult]
    cases serializeItems deserialize index items <;>
      cases serializeItems deserialize (index + completedTurns items) rest <;> rfl
  | .assistant turn :: items, index => by
    rw [List.cons_append, serializeItems, serializeItems, completedTurns_assistant]
    split
    next hcompleted =>
      rw [serializeItems_append rest items (index + 1), Nat.add_right_comm, ← Nat.add_assoc]
      cases serializeAssistantTurn deserialize turn index <;>
        cases serializeItems deserialize (index + 1) items <;>
          cases serializeItems deserialize (index + completedTurns items + 1) rest <;>
            simp [bind, Except.bind, pure, Except.pure]
    next hcompleted => exact serializeItems_append rest items index

theorem serializeItems_toolResults (results : List ToolResultTurn) (index : Nat) :
    serializeItems deserialize index (results.map .toolResult)
      = .ok (results.map serializeToolResultTurn) := by
  induction results with
  | nil => rfl
  | cons result results ih => rw [List.map_cons, serializeItems, ih]; rfl

/-- A history that is followed by a response and by the results of its calls. -/
theorem serializeHistoryItems_reply (loads : String → Option Json) {dumps : Json → String}
    {response : StreamedResponse} (h : response.Sound deserialize dumps) (model : String)
    {history : List ConversationItem} {inputs : List InputItem}
    (hinputs : serializeHistoryItems deserialize history = .ok inputs)
    (results : List ToolResultTurn) :
    serializeHistoryItems deserialize (history ++
        .assistant (response.turn loads dumps model) :: results.map .toolResult)
      = .ok (inputs ++ (response.replayed loads ++ results.map serializeToolResultTurn)) := by
  have hcompleted : (response.turn loads dumps model).status = .completed := rfl
  rw [serializeHistoryItems] at hinputs ⊢
  rw [serializeItems_append, hinputs, serializeItems, if_pos hcompleted,
    serializeAssistantTurn_streamed h, serializeItems_toolResults]
  rfl

end History

end Tile
