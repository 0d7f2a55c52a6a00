import Tile.Types.StreamEvents

/-!
# Providers/OpenAI/StreamAssembler — normalized events as provider stream events

    normalized events ──yieldStreamEvent──▸ updates, one at a time ──terminal──▸ done | error

The assembler keeps the blocks of one assistant turn and which of them is active.  A block becomes
active when its item is added; an event about an item whose block is not active is ignored.
-/

namespace Tile

/-- Whether a message comments on the work or answers. -/
inductive MessagePhase where
  | commentary | finalAnswer
  deriving Repr, DecidableEq

/-- The values of `Phase`. -/
def MessagePhase.value : MessagePhase → String
  | .commentary => "commentary"
  | .finalAnswer => "final_answer"

/-- Transport-independent events consumed by the stream assembler. -/
inductive NormalizedEvent where
  | created (responseId : String)
  | reasoningAdded (itemId : String)
  | reasoningDelta (delta : String)
  | reasoningDone (itemId summaryText : String) (reasoningSignature : Option String)
  | messageAdded (itemId : String) (phase : Option MessagePhase)
  | messageTextDelta (delta : String)
  | messageDone (itemId text : String) (phase : Option MessagePhase)
  | toolCallAdded (providerItemId : Option String) (callId name : String) (arguments : JsonObject)
  | toolCallArgumentsDelta (delta : String)
  | toolCallArgumentsDone (arguments : JsonObject)
  | toolCallDone (providerItemId : Option String) (callId name : String) (arguments : JsonObject)
  | completed (stopReason : StopReason)
  | incomplete (stopReason : StopReason) (errorMessage : Option String)
  | failed (message : String)
  deriving Repr, DecidableEq

/-- `TERMINAL_NORMALIZED_EVENT_TYPES`. -/
def NormalizedEvent.isTerminal : NormalizedEvent → Bool
  | .completed _ | .incomplete _ _ | .failed _ => true
  | _ => false

/-- State used while assembling one assistant stream.  The source's `active_block` is the very
object `blocks` holds at `active_block_index`, so the index alone names it. -/
structure StreamAssemblyState where
  source : ProviderSource
  responseId : Option String := none
  blocks : List AssistantBlock := []
  activeBlockIndex : Option Nat := none
  deriving Repr, DecidableEq

/-- What one normalized event yields, and the state it leaves. -/
abbrev Assembly := Option ProviderStreamEvent × StreamAssemblyState

namespace StreamAssemblyState

variable (state : StreamAssemblyState)

/-- The active block and its index. -/
def activeBlock : Option (AssistantBlock × Nat) :=
  state.activeBlockIndex.bind fun index => state.blocks[index]?.map (·, index)

/-- The active block is written in place. -/
def writeBlock (index : Nat) (block : AssistantBlock) : StreamAssemblyState :=
  { state with blocks := state.blocks.set index block }

/-- Clear the active block pointer without altering accumulated blocks. -/
def clearActiveBlock : StreamAssemblyState := { state with activeBlockIndex := none }

/-- Append a new block and make it active; `started` is the event of its content index. -/
def appendActiveBlock (block : AssistantBlock) (started : Nat → StreamUpdateEvent) : Assembly :=
  (some (.update (started state.blocks.length)),
    { state with
      blocks := state.blocks ++ [block], activeBlockIndex := some state.blocks.length })

/-! ## One handler per event -/

/-- Record provider response identity. -/
def recordCreatedEvent (responseId : String) : Assembly :=
  (some (.streamStart state.source responseId), { state with responseId := some responseId })

/-- Start a reasoning block and return its stream event. -/
def startReasoningBlock : Assembly :=
  state.appendActiveBlock (.reasoning { summaryText := "" }) .reasoningStart

/-- Append reasoning text to the active reasoning block. -/
def appendReasoningDelta (delta : String) : Assembly :=
  match state.activeBlock with
  | some (.reasoning block, index) =>
    (some (.update (.reasoningDelta index delta)),
      state.writeBlock index (.reasoning { block with summaryText := block.summaryText ++ delta }))
  | _ => (none, state)

/-- Finalize the active reasoning block.  An empty final summary keeps the accumulated one. -/
def finalizeReasoningBlock (summaryText : String) (reasoningSignature : Option String) : Assembly :=
  match state.activeBlock with
  | some (.reasoning block, index) =>
    let block := { block with
      summaryText := if summaryText = "" then block.summaryText else summaryText
      providerMetadata :=
        ProviderMetadata.fromValues [("reasoning_signature", reasoningSignature)] }
    (some (.update (.reasoningEnd index block)),
      (state.writeBlock index (.reasoning block)).clearActiveBlock)
  | _ => (none, state)

/-- Start a text block and return its stream event. -/
def startTextBlock : Assembly := state.appendActiveBlock (.text { text := "" }) .textStart

/-- Append text to the active text block. -/
def appendTextDelta (delta : String) : Assembly :=
  match state.activeBlock with
  | some (.text block, index) =>
    (some (.update (.textDelta index delta)),
      state.writeBlock index (.text { block with text := block.text ++ delta }))
  | _ => (none, state)

/-- Finalize the active text block. -/
def finalizeTextBlock (itemId text : String) (phase : Option MessagePhase) : Assembly :=
  match state.activeBlock with
  | some (.text block, index) =>
    let block := { block with
      text
      providerMetadata :=
        ProviderMetadata.fromValues [("message_id", some itemId), ("phase", phase.map (·.value))] }
    (some (.update (.textEnd index block)),
      (state.writeBlock index (.text block)).clearActiveBlock)
  | _ => (none, state)

/-- Start tracking a tool-call block. -/
def startToolCallBlock (callId name : String) (arguments : JsonObject) : Assembly :=
  state.appendActiveBlock (.toolCall { callId, name, arguments })
    fun index => .toolCallStart index callId name

/-- A delta is passed on; the block keeps its arguments. -/
def appendToolCallArgumentsDelta (delta : String) : Assembly :=
  match state.activeBlock with
  | some (.toolCall _, index) => (some (.update (.toolCallDelta index delta)), state)
  | _ => (none, state)

/-- Replace active tool-call arguments with the parsed final JSON. -/
def replaceToolCallArguments (arguments : JsonObject) : Assembly :=
  match state.activeBlock with
  | some (.toolCall block, index) =>
    (none, state.writeBlock index (.toolCall { block with arguments }))
  | _ => (none, state)

/-- Finalize the active tool-call block. -/
def finalizeToolCallBlock (providerItemId : Option String) (callId name : String)
    (arguments : JsonObject) : Assembly :=
  match state.activeBlock with
  | some (.toolCall _, index) =>
    let block : ToolCallBlock := {
      callId, name, arguments
      providerMetadata := ProviderMetadata.fromValues [("provider_item_id", providerItemId)] }
    (some (.update (.toolCallEnd index block)),
      (state.writeBlock index (.toolCall block)).clearActiveBlock)
  | _ => (none, state)

/-- Build the successful terminal stream event. -/
def buildStreamDoneEvent (stopReason : StopReason) : StreamDoneEvent where
  source := state.source
  responseId := state.responseId
  stopReason := stopReason
  blocks := state.blocks

/-- Build the failed terminal stream event. -/
def buildStreamErrorEvent (errorMessage : String) : StreamErrorEvent where
  source := state.source
  responseId := state.responseId
  errorMessage := errorMessage
  blocks := state.blocks

/-- Map incomplete provider responses to terminal stream events. -/
def buildIncompleteEvent (stopReason : StopReason) (errorMessage : Option String) :
    ProviderStreamEvent :=
  if stopReason = .error then
    .error (state.buildStreamErrorEvent (orElse errorMessage "OpenAI response incomplete."))
  else .done (state.buildStreamDoneEvent stopReason)

end StreamAssemblyState

/-- Route one normalized event to its stream-level event. -/
def yieldStreamEvent (state : StreamAssemblyState) : NormalizedEvent → Assembly
  | .created responseId => state.recordCreatedEvent responseId
  | .reasoningAdded _ => state.startReasoningBlock
  | .reasoningDelta delta => state.appendReasoningDelta delta
  | .reasoningDone _ summaryText signature => state.finalizeReasoningBlock summaryText signature
  | .messageAdded _ _ => state.startTextBlock
  | .messageTextDelta delta => state.appendTextDelta delta
  | .messageDone itemId text phase => state.finalizeTextBlock itemId text phase
  | .toolCallAdded _ callId name arguments => state.startToolCallBlock callId name arguments
  | .toolCallArgumentsDelta delta => state.appendToolCallArgumentsDelta delta
  | .toolCallArgumentsDone arguments => state.replaceToolCallArguments arguments
  | .toolCallDone itemId callId name arguments =>
    state.finalizeToolCallBlock itemId callId name arguments
  | .completed stopReason => (some (.done (state.buildStreamDoneEvent stopReason)), state)
  | .incomplete stopReason message => (some (state.buildIncompleteEvent stopReason message), state)
  | .failed message => (some (.error (state.buildStreamErrorEvent message)), state)

/-- Assemble the rest of a stream; a terminal event is its last. -/
def assembleFrom (state : StreamAssemblyState) : List NormalizedEvent → List ProviderStreamEvent
  | [] => []
  | event :: rest =>
    (yieldStreamEvent state event).1.toList ++
      if event.isTerminal then [] else assembleFrom (yieldStreamEvent state event).2 rest

/-- Assemble normalized provider events into provider stream events. -/
def assembleStream (source : ProviderSource) (events : List NormalizedEvent) :
    List ProviderStreamEvent :=
  assembleFrom { source } events

end Tile
