import Tile.Providers.OpenAI.WellFormed
import Tile.ToolExecutor

/-!
# Providers/OpenAI/SdkEventAdapter — events of the SDK as normalized events

    ResponseStreamEvent ──normalizeSdkEvent──▸ NormalizedEvent, or nothing

An SDK event is tried as a lifecycle event, as content, as an item added and as an item done.  A
response the SDK streams item by item normalizes, **whatever other events are among its own, to
the events of a well-formed response** (`normalizeSdkEvents_response`).
-/

namespace Tile

/-! ## What the SDK streams -/

/-- A part of the content of a message. -/
inductive ResponseMessageContent where
  | outputText (text : String)
  | refusal (refusal : String)
  deriving Repr, DecidableEq

/-- `summary` has the texts of the summary parts; `dump` is what `model_dump(mode="json",
exclude_none=True)` makes of the whole item. -/
structure ResponseReasoningItem where
  id : String
  summary : List String
  dump : Json
  deriving DecidableEq

/-- A message of a response. -/
structure ResponseOutputMessage where
  id : String
  content : List ResponseMessageContent
  phase : Option String := none
  deriving Repr, DecidableEq

/-- A tool call of a response; the arguments are JSON text. -/
structure ResponseFunctionToolCall where
  id : Option String := none
  callId : String
  name : String
  arguments : String
  deriving Repr, DecidableEq

/-- An item of a response's output: one of the kinds the adapter knows, or a built-in tool's. -/
inductive ResponseOutputItem where
  | reasoning (item : ResponseReasoningItem)
  | message (item : ResponseOutputMessage)
  | functionCall (item : ResponseFunctionToolCall)
  | other (type : String)
  deriving DecidableEq

/-- An event of the SDK with the fields the adapter reads: `reason` is that of the response's
`incomplete_details`, `message` that of its `error`, where there are any. -/
inductive ResponseStreamEvent where
  | created (responseId : String)
  | completed (output : List ResponseOutputItem)
  | incomplete (reason : Option String) (output : List ResponseOutputItem)
  | error (message : String)
  | failed (message : Option String)
  | reasoningSummaryTextDelta (delta : String)
  | reasoningTextDelta (delta : String)
  | textDelta (delta : String)
  | refusalDelta (delta : String)
  | functionCallArgumentsDelta (delta : String)
  | functionCallArgumentsDone (arguments : String)
  | outputItemAdded (item : ResponseOutputItem)
  | outputItemDone (item : ResponseOutputItem)
  | other (type : String)
  deriving DecidableEq

/-! ## Reading an event -/

/-- The item is a tool call. -/
def ResponseOutputItem.isFunctionCall : ResponseOutputItem → Bool
  | .functionCall _ => true
  | .reasoning _ | .message _ | .other _ => false

/-- The structured output phase of a message, if it has one. -/
def extractMessagePhase (item : ResponseOutputMessage) : Option MessagePhase :=
  match item.phase with
  | some "commentary" => some .commentary
  | some "final_answer" => some .finalAnswer
  | _ => none

/-- Concatenate all output-text and refusal parts of a message. -/
def joinMessageText (content : List ResponseMessageContent) : String :=
  String.join <| content.map fun
    | .outputText text => text
    | .refusal refusal => refusal

/-- The summary parts that have text, as paragraphs. -/
def joinReasoningSummaryText (summary : List String) : String :=
  "\n\n".intercalate (summary.filter (· ≠ ""))

/-- The error message of a failed response event. -/
def extractErrorMessage (message : Option String) : String :=
  orElse message "OpenAI response failed."

/-- The error message of a stream error event. -/
def extractStreamErrorMessage (message : String) : String :=
  orElse (some message) "OpenAI stream error."

/-- A human-readable error message for an incomplete response. -/
def extractIncompleteErrorMessage (reason : Option String) : String :=
  if reason = some "content_filter" then "OpenAI response was truncated by the content filter."
  else "OpenAI response incomplete."

/-- The stop reason by the status of the response alone: `reason` is that of an incomplete one. -/
def extractBaseStopReason : (incomplete : Option (Option String)) → StopReason
  | some reason => if reason = some "content_filter" then .error else .length
  | none => .stop

/-- The stop reason, promoted to tool use when function calls are present. -/
def extractStopReason (incomplete : Option (Option String)) (output : List ResponseOutputItem) :
    StopReason :=
  if extractBaseStopReason incomplete = .stop ∧ output.any (·.isFunctionCall) = true then .toolUse
  else extractBaseStopReason incomplete

section Adapter

-- `json.loads`, without a value where it raises `JSONDecodeError`, and `json.dumps`
variable (loads : String → Option Json) (dumps : Json → String)

/-- Parse a JSON arguments string into a dict, returning an empty one on failure. -/
def parseToolCallArguments (arguments : String) : JsonObject :=
  if stripSpace arguments = "" then []
  else match loads arguments with
    | some (.obj parsed) => parsed
    | _ => []

/-- Serialize a reasoning item to a JSON string for storage. -/
def serializeReasoningItem (item : ResponseReasoningItem) : String := dumps item.dump

/-- Response creation and terminal lifecycle events. -/
def normalizeResponseLifecycleEvent : ResponseStreamEvent → Option NormalizedEvent
  | .created responseId => some (.created responseId)
  | .completed output => some (.completed (extractStopReason none output))
  | .incomplete reason output =>
    some (.incomplete (extractStopReason (some reason) output)
      (some (extractIncompleteErrorMessage reason)))
  | .error message => some (.failed (extractStreamErrorMessage message))
  | .failed message => some (.failed (extractErrorMessage message))
  | _ => none

/-- Incremental block content and its argument completion. -/
def normalizeContentStreamEvent : ResponseStreamEvent → Option NormalizedEvent
  | .reasoningSummaryTextDelta delta | .reasoningTextDelta delta => some (.reasoningDelta delta)
  | .textDelta delta | .refusalDelta delta => some (.messageTextDelta delta)
  | .functionCallArgumentsDelta delta => some (.toolCallArgumentsDelta delta)
  | .functionCallArgumentsDone arguments =>
    some (.toolCallArgumentsDone (parseToolCallArguments loads arguments))
  | _ => none

/-- The start of a reasoning, message, or tool-call item. -/
def normalizeOutputItemAdded : ResponseStreamEvent → Option NormalizedEvent
  | .outputItemAdded (.reasoning item) => some (.reasoningAdded item.id)
  | .outputItemAdded (.message item) => some (.messageAdded item.id (extractMessagePhase item))
  | .outputItemAdded (.functionCall item) =>
    some (.toolCallAdded item.id item.callId item.name
      (parseToolCallArguments loads item.arguments))
  | _ => none

/-- The completion of a reasoning, message, or tool-call item. -/
def normalizeOutputItemDone : ResponseStreamEvent → Option NormalizedEvent
  | .outputItemDone (.reasoning item) =>
    some (.reasoningDone item.id (joinReasoningSummaryText item.summary)
      (some (serializeReasoningItem dumps item)))
  | .outputItemDone (.message item) =>
    some (.messageDone item.id (joinMessageText item.content) (extractMessagePhase item))
  | .outputItemDone (.functionCall item) =>
    some (.toolCallDone item.id item.callId item.name
      (parseToolCallArguments loads item.arguments))
  | _ => none

/-- Convert one raw SDK event into the shared normalized-event union. -/
def normalizeSdkEvent (event : ResponseStreamEvent) : Option NormalizedEvent :=
  normalizeResponseLifecycleEvent event <|> normalizeContentStreamEvent loads event <|>
    normalizeOutputItemAdded loads event <|> normalizeOutputItemDone loads dumps event

/-- Normalize raw SDK events into transport-independent provider events. -/
def normalizeSdkEvents (events : List ResponseStreamEvent) : List NormalizedEvent :=
  events.filterMap (normalizeSdkEvent loads dumps)

end Adapter

/-! ## A response that is streamed item by item -/

/-- The SDK's events that the adapter has no use for. -/
def ResponseStreamEvent.isIgnored : ResponseStreamEvent → Bool
  | .outputItemAdded (.other _) | .outputItemDone (.other _) | .other _ => true
  | _ => false

/-- A reasoning item, its deltas and its done event. -/
structure StreamedReasoning where
  added : ResponseReasoningItem
  /-- The deltas of the summary are marked, those of the reasoning itself are not. -/
  deltas : List (Bool × String)
  done : ResponseReasoningItem

structure StreamedMessage where
  added : ResponseOutputMessage
  /-- The deltas of a refusal are marked. -/
  deltas : List (Bool × String)
  done : ResponseOutputMessage

structure StreamedFunctionCall where
  added : ResponseFunctionToolCall
  /-- Complete arguments are marked. -/
  arguments : List (Bool × String)
  done : ResponseFunctionToolCall

inductive StreamedItem where
  | reasoning (item : StreamedReasoning)
  | message (item : StreamedMessage)
  | functionCall (item : StreamedFunctionCall)

namespace StreamedItem

/-- The item as its done event has it. -/
def done : StreamedItem → ResponseOutputItem
  | reasoning item => .reasoning item.done
  | message item => .message item.done
  | functionCall item => .functionCall item.done

def events : StreamedItem → List ResponseStreamEvent
  | reasoning item => .outputItemAdded (.reasoning item.added) ::
      (item.deltas.map (fun delta => if delta.1 then .reasoningSummaryTextDelta delta.2
        else .reasoningTextDelta delta.2) ++ [.outputItemDone (.reasoning item.done)])
  | message item => .outputItemAdded (.message item.added) ::
      (item.deltas.map (fun delta => if delta.1 then .refusalDelta delta.2
        else .textDelta delta.2) ++ [.outputItemDone (.message item.done)])
  | functionCall item => .outputItemAdded (.functionCall item.added) ::
      (item.arguments.map (fun part => if part.1 then .functionCallArgumentsDone part.2
        else .functionCallArgumentsDelta part.2) ++ [.outputItemDone (.functionCall item.done)])

end StreamedItem

/-- A response that ends well: completed, or incomplete for another reason than the content
filter. -/
structure StreamedResponse where
  responseId : String
  items : List StreamedItem
  /-- The output of the final event, with the items of other kinds. -/
  output : List ResponseOutputItem
  /-- The reason the response is incomplete, if it is. -/
  incomplete : Option (Option String) := none
  unfiltered : incomplete ≠ some (some "content_filter")

namespace StreamedResponse

variable (response : StreamedResponse)

def ending : ResponseStreamEvent :=
  match response.incomplete with
  | none => .completed response.output
  | some reason => .incomplete reason response.output

/-- The response's own events. -/
def events : List ResponseStreamEvent :=
  .created response.responseId :: (response.items.flatMap StreamedItem.events ++ [response.ending])

def stopReason : StopReason := extractStopReason response.incomplete response.output

end StreamedResponse

theorem StreamedItem.not_isIgnored (item : StreamedItem) :
    ∀ event ∈ item.events, event.isIgnored = false := by
  cases item <;> simp only [events, List.forall_mem_cons, List.forall_mem_append,
    List.forall_mem_map, List.not_mem_nil, false_implies, implies_true, and_true] <;>
  · refine ⟨rfl, fun delta _ => ?_, rfl⟩
    split <;> rfl

/-- A response has a use for all of its own events. -/
theorem StreamedResponse.filter_events (response : StreamedResponse) :
    response.events.filter (!·.isIgnored) = response.events := by
  have hending : response.ending.isIgnored = false := by
    unfold ending
    split <;> rfl
  refine List.filter_eq_self.mpr fun event hevent => ?_
  rw [Bool.not_eq_true']
  rcases List.mem_cons.mp hevent with rfl | hevent
  · rfl
  rcases List.mem_append.mp hevent with hevent | hevent
  · obtain ⟨item, -, hevent⟩ := List.mem_flatMap.mp hevent
    exact item.not_isIgnored event hevent
  · obtain rfl := List.mem_singleton.mp hevent
    exact hending

section Normalized

variable (loads : String → Option Json) (dumps : Json → String)

def ResponseFunctionToolCall.payload (item : ResponseFunctionToolCall) : ToolCallPayload where
  providerItemId := item.id
  callId := item.callId
  name := item.name
  arguments := parseToolCallArguments loads item.arguments

/-- The item of a well-formed response that a streamed item stands for. -/
def StreamedItem.responseItem : StreamedItem → ResponseItem
  | .reasoning item => .reasoning {
      addedId := item.added.id
      deltas := item.deltas.map (·.2)
      doneId := item.done.id
      summaryText := joinReasoningSummaryText item.done.summary
      reasoningSignature := some (serializeReasoningItem dumps item.done) }
  | .message item => .message {
      addedId := item.added.id
      addedPhase := extractMessagePhase item.added
      deltas := item.deltas.map (·.2)
      doneId := item.done.id
      text := joinMessageText item.done.content
      phase := extractMessagePhase item.done }
  | .functionCall item => .toolCall {
      added := item.added.payload loads
      arguments := item.arguments.map fun part =>
        if part.1 then .done (parseToolCallArguments loads part.2) else .delta part.2
      done := item.done.payload loads }

/-- How a response that ends well ends. -/
def StreamedResponse.responseEnding (response : StreamedResponse) : ResponseEnding :=
  match response.incomplete with
  | none => .completed response.stopReason
  | some reason => .incomplete response.stopReason (some (extractIncompleteErrorMessage reason))

theorem normalizeSdkEvent_eq_none_of_isIgnored {event : ResponseStreamEvent}
    (h : event.isIgnored = true) : normalizeSdkEvent loads dumps event = none := by
  unfold ResponseStreamEvent.isIgnored at h
  split at h
  · rfl
  · rfl
  · rfl
  · cases h

/-- Events without use do not get through. -/
theorem normalizeSdkEvents_filter (events : List ResponseStreamEvent) :
    normalizeSdkEvents loads dumps (events.filter (!·.isIgnored))
      = normalizeSdkEvents loads dumps events := by
  rw [normalizeSdkEvents, normalizeSdkEvents, List.filterMap_filter]
  refine List.filterMap_congr fun event _ => ?_
  cases hignored : event.isIgnored with
  | true => simp [normalizeSdkEvent_eq_none_of_isIgnored loads dumps hignored]
  | false => simp

/-- Events that each normalize to one. -/
theorem normalizeSdkEvents_map {α : Type} (event : α → ResponseStreamEvent)
    (normalized : α → NormalizedEvent)
    (h : ∀ a, normalizeSdkEvent loads dumps (event a) = some (normalized a)) (parts : List α) :
    normalizeSdkEvents loads dumps (parts.map event) = parts.map normalized := by
  rw [normalizeSdkEvents, List.filterMap_map, ← List.filterMap_eq_map]
  exact List.filterMap_congr fun part _ => h part

theorem normalizeSdkEvents_append (events events' : List ResponseStreamEvent) :
    normalizeSdkEvents loads dumps (events ++ events')
      = normalizeSdkEvents loads dumps events ++ normalizeSdkEvents loads dumps events' :=
  List.filterMap_append

theorem normalizeSdkEvents_item (item : StreamedItem) :
    normalizeSdkEvents loads dumps item.events = (item.responseItem loads dumps).events := by
  cases item with
  | reasoning item =>
    have hdeltas := normalizeSdkEvents_map loads dumps
      (fun delta : Bool × String => if delta.1 then .reasoningSummaryTextDelta delta.2
        else .reasoningTextDelta delta.2)
      (fun delta => .reasoningDelta delta.2)
      (fun delta => by cases delta.1 <;> rfl) item.deltas
    rw [StreamedItem.events, ← List.singleton_append, normalizeSdkEvents_append,
      normalizeSdkEvents_append, hdeltas, StreamedItem.responseItem, ResponseItem.events,
      List.map_map]
    rfl
  | message item =>
    have hdeltas := normalizeSdkEvents_map loads dumps
      (fun delta : Bool × String => if delta.1 then .refusalDelta delta.2
        else .textDelta delta.2)
      (fun delta => .messageTextDelta delta.2)
      (fun delta => by cases delta.1 <;> rfl) item.deltas
    rw [StreamedItem.events, ← List.singleton_append, normalizeSdkEvents_append,
      normalizeSdkEvents_append, hdeltas, StreamedItem.responseItem, ResponseItem.events,
      List.map_map]
    rfl
  | functionCall item =>
    have harguments := normalizeSdkEvents_map loads dumps
      (fun part : Bool × String => if part.1 then .functionCallArgumentsDone part.2
        else .functionCallArgumentsDelta part.2)
      (fun part => ArgumentsEvent.event <|
        if part.1 then .done (parseToolCallArguments loads part.2) else .delta part.2)
      (fun part => by cases part.1 <;> rfl) item.arguments
    rw [StreamedItem.events, ← List.singleton_append, normalizeSdkEvents_append,
      normalizeSdkEvents_append, harguments, StreamedItem.responseItem, ResponseItem.events,
      List.map_map]
    rfl

theorem normalizeSdkEvents_items (items : List StreamedItem) :
    normalizeSdkEvents loads dumps (items.flatMap StreamedItem.events)
      = (items.map (StreamedItem.responseItem loads dumps)).flatMap ResponseItem.events := by
  induction items with
  | nil => rfl
  | cons item items ih =>
    rw [List.flatMap_cons, normalizeSdkEvents_append, normalizeSdkEvents_item, ih, List.map_cons,
      List.flatMap_cons]

/-- **A response streamed item by item normalizes to a well-formed one**, whatever events without
use are among its own. -/
theorem normalizeSdkEvents_response {response : StreamedResponse}
    {events : List ResponseStreamEvent} (h : events.filter (!·.isIgnored) = response.events) :
    normalizeSdkEvents loads dumps events = responseEvents response.responseId
      (response.items.map (StreamedItem.responseItem loads dumps)) response.responseEnding := by
  rw [← normalizeSdkEvents_filter, h, StreamedResponse.events, ← List.singleton_append,
    normalizeSdkEvents_append, normalizeSdkEvents_append, normalizeSdkEvents_items, responseEvents,
    StreamedResponse.ending, StreamedResponse.responseEnding, StreamedResponse.stopReason]
  cases response.incomplete <;> rfl

end Normalized

end Tile
