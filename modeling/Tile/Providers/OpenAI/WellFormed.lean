import Tile.Providers.OpenAI.StreamAssembler

/-!
# Providers/OpenAI/WellFormed — a response whose items come one after another

    created · item · … · item · completed | incomplete | failed
                │
                └─ added · deltas (and complete arguments) · done

From such a response **the assembler makes one block per item, out of the item's done event**, and
passes its deltas on in order (`assembleStream_response`).  Of the deltas themselves a block keeps
only a reasoning summary, and only where the done event has none.
-/

namespace Tile

/-! ## The response -/

/-- What an added event, some deltas and a done event say about a reasoning item. -/
structure ReasoningItem where
  addedId : String
  deltas : List String
  doneId : String
  summaryText : String
  reasoningSignature : Option String
  deriving Repr, DecidableEq

/-- The same of a message. -/
structure MessageItem where
  addedId : String
  addedPhase : Option MessagePhase
  deltas : List String
  doneId : String
  text : String
  phase : Option MessagePhase
  deriving Repr, DecidableEq

/-- What comes between the added and the done event of a tool call. -/
inductive ArgumentsEvent where
  | delta (delta : String)
  | done (arguments : JsonObject)
  deriving Repr, DecidableEq

/-- What an added and a done event say about a tool call. -/
structure ToolCallPayload where
  providerItemId : Option String
  callId : String
  name : String
  arguments : JsonObject
  deriving Repr, DecidableEq

/-- The same of a tool call, whose arguments come in deltas or complete. -/
structure ToolCallItem where
  added : ToolCallPayload
  arguments : List ArgumentsEvent
  done : ToolCallPayload
  deriving Repr, DecidableEq

/-- An item of a response. -/
inductive ResponseItem where
  | reasoning (item : ReasoningItem)
  | message (item : MessageItem)
  | toolCall (item : ToolCallItem)
  deriving Repr, DecidableEq

/-- How a response ends. -/
inductive ResponseEnding where
  | completed (stopReason : StopReason)
  | incomplete (stopReason : StopReason) (errorMessage : Option String)
  | failed (message : String)
  deriving Repr, DecidableEq

/-! ## Its events -/

/-- The event that brings arguments. -/
def ArgumentsEvent.event : ArgumentsEvent → NormalizedEvent
  | .delta text => .toolCallArgumentsDelta text
  | .done arguments => .toolCallArgumentsDone arguments

/-- The events of an item: it is added, its parts come, it is done. -/
def ResponseItem.events : ResponseItem → List NormalizedEvent
  | .reasoning item => .reasoningAdded item.addedId ::
      (item.deltas.map .reasoningDelta
        ++ [.reasoningDone item.doneId item.summaryText item.reasoningSignature])
  | .message item => .messageAdded item.addedId item.addedPhase ::
      (item.deltas.map .messageTextDelta ++ [.messageDone item.doneId item.text item.phase])
  | .toolCall { added, arguments, done } =>
    .toolCallAdded added.providerItemId added.callId added.name added.arguments ::
      (arguments.map ArgumentsEvent.event
        ++ [.toolCallDone done.providerItemId done.callId done.name done.arguments])

/-- The terminal event. -/
def ResponseEnding.event : ResponseEnding → NormalizedEvent
  | .completed stopReason => .completed stopReason
  | .incomplete stopReason errorMessage => .incomplete stopReason errorMessage
  | .failed message => .failed message

/-- The events of a response, its items one after another. -/
def responseEvents (responseId : String) (items : List ResponseItem) (ending : ResponseEnding) :
    List NormalizedEvent :=
  .created responseId :: (items.flatMap ResponseItem.events ++ [ending.event])

/-! ## What is to come of it -/

/-- The block of a reasoning item: the summary of its done event, or its deltas. -/
def ReasoningItem.block (item : ReasoningItem) : ReasoningBlock where
  summaryText := if item.summaryText = "" then String.join item.deltas else item.summaryText
  providerMetadata := ProviderMetadata.fromValues [("reasoning_signature", item.reasoningSignature)]

/-- The block of a message, all of its done event. -/
def MessageItem.block (item : MessageItem) : TextBlock where
  text := item.text
  providerMetadata := ProviderMetadata.fromValues
    [("message_id", some item.doneId), ("phase", item.phase.map (·.value))]

/-- The block of a tool call, all of its done event. -/
def ToolCallItem.block (item : ToolCallItem) : ToolCallBlock where
  callId := item.done.callId
  name := item.done.name
  arguments := item.done.arguments
  providerMetadata := ProviderMetadata.fromValues [("provider_item_id", item.done.providerItemId)]

/-- The block of an item. -/
def ResponseItem.block : ResponseItem → AssistantBlock
  | .reasoning item => .reasoning item.block
  | .message item => .text item.block
  | .toolCall item => .toolCall item.block

/-- Complete arguments are kept to themselves. -/
def ArgumentsEvent.delta? : ArgumentsEvent → Option String
  | .delta text => some text
  | .done _ => none

/-- The start of the item with this index, its deltas and its end. -/
def ResponseItem.updates (index : Nat) : ResponseItem → List StreamUpdateEvent
  | .reasoning item => .reasoningStart index ::
      (item.deltas.map (.reasoningDelta index) ++ [.reasoningEnd index item.block])
  | .message item => .textStart index ::
      (item.deltas.map (.textDelta index) ++ [.textEnd index item.block])
  | .toolCall item => .toolCallStart index item.added.callId item.added.name ::
      ((item.arguments.filterMap ArgumentsEvent.delta?).map (.toolCallDelta index)
        ++ [.toolCallEnd index item.block])

/-- The updates of items of which the first has this index. -/
def itemUpdates (first : Nat) (items : List ResponseItem) : List StreamUpdateEvent :=
  (items.zipIdx first).flatMap fun (item, index) => item.updates index

/-- The event the stream ends with. -/
def ResponseEnding.terminal (source : ProviderSource) (responseId : String)
    (blocks : List AssistantBlock) : ResponseEnding → ProviderStreamEvent
  | .completed stopReason => .done { source, responseId, stopReason, blocks }
  | .incomplete stopReason errorMessage =>
    if stopReason = .error then
      .error { source, responseId, blocks
               errorMessage := orElse errorMessage "OpenAI response incomplete." }
    else .done { source, responseId, stopReason, blocks }
  | .failed message => .error { source, responseId, errorMessage := message, blocks }

/-! ## One item -/

namespace StreamAssemblyState

variable (state : StreamAssemblyState)

/-- A state with one more block, active or done. -/
def push (block : AssistantBlock) (activeBlockIndex : Option Nat) : StreamAssemblyState :=
  { state with blocks := state.blocks ++ [block], activeBlockIndex }

@[simp] theorem activeBlock_push (block : AssistantBlock) :
    (state.push block (some state.blocks.length)).activeBlock
      = some (block, state.blocks.length) := by
  simp [activeBlock, push]

@[simp] theorem writeBlock_push (block block' : AssistantBlock) (active : Option Nat) :
    (state.push block active).writeBlock state.blocks.length block' = state.push block' active := by
  simp [writeBlock, push]

@[simp] theorem clearActiveBlock_push (block : AssistantBlock) (active : Option Nat) :
    (state.push block active).clearActiveBlock = state.push block none := rfl

end StreamAssemblyState

section Item

variable (state : StreamAssemblyState) (rest : List NormalizedEvent)

theorem assembleFrom_reasoningDeltas (block : ReasoningBlock) (deltas : List String) :
    assembleFrom (state.push (.reasoning block) (some state.blocks.length))
        (deltas.map .reasoningDelta ++ rest)
      = deltas.map (fun delta => .update (.reasoningDelta state.blocks.length delta))
        ++ assembleFrom (state.push (.reasoning
          { block with summaryText := deltas.foldl (· ++ ·) block.summaryText })
            (some state.blocks.length)) rest := by
  induction deltas generalizing block with
  | nil => rfl
  | cons delta deltas ih =>
    rw [List.map_cons, List.cons_append, assembleFrom, yieldStreamEvent,
      StreamAssemblyState.appendReasoningDelta, state.activeBlock_push]
    simp [NormalizedEvent.isTerminal, ih]

theorem assembleFrom_textDeltas (block : TextBlock) (deltas : List String) :
    assembleFrom (state.push (.text block) (some state.blocks.length))
        (deltas.map .messageTextDelta ++ rest)
      = deltas.map (fun delta => .update (.textDelta state.blocks.length delta))
        ++ assembleFrom (state.push (.text
          { block with text := deltas.foldl (· ++ ·) block.text })
            (some state.blocks.length)) rest := by
  induction deltas generalizing block with
  | nil => rfl
  | cons delta deltas ih =>
    rw [List.map_cons, List.cons_append, assembleFrom, yieldStreamEvent,
      StreamAssemblyState.appendTextDelta, state.activeBlock_push]
    simp [NormalizedEvent.isTerminal, ih]

/-- Arguments change while a call is active, but nothing else about it. -/
theorem assembleFrom_arguments (block : ToolCallBlock) (events : List ArgumentsEvent) :
    ∃ block' : ToolCallBlock,
      assembleFrom (state.push (.toolCall block) (some state.blocks.length))
          (events.map ArgumentsEvent.event ++ rest)
        = (events.filterMap ArgumentsEvent.delta?).map
            (fun delta => .update (.toolCallDelta state.blocks.length delta))
          ++ assembleFrom (state.push (.toolCall block') (some state.blocks.length)) rest := by
  induction events generalizing block with
  | nil => exact ⟨block, rfl⟩
  | cons event events ih =>
    rw [List.map_cons, List.cons_append, assembleFrom]
    cases event with
    | delta delta =>
      obtain ⟨block', hrest⟩ := ih block
      refine ⟨block', ?_⟩
      rw [ArgumentsEvent.event, yieldStreamEvent,
        StreamAssemblyState.appendToolCallArgumentsDelta, state.activeBlock_push]
      simp [NormalizedEvent.isTerminal, hrest, ArgumentsEvent.delta?]
    | done arguments =>
      obtain ⟨block', hrest⟩ := ih { block with arguments }
      refine ⟨block', ?_⟩
      rw [ArgumentsEvent.event, yieldStreamEvent,
        StreamAssemblyState.replaceToolCallArguments, state.activeBlock_push]
      simp [NormalizedEvent.isTerminal, hrest, List.filterMap_cons, ArgumentsEvent.delta?]

/-- **One item**, whatever was active before it: its updates, and one more block, done. -/
theorem assembleFrom_item (item : ResponseItem) :
    assembleFrom state (item.events ++ rest)
      = (item.updates state.blocks.length).map .update
        ++ assembleFrom (state.push item.block none) rest := by
  cases item with
  | reasoning item =>
    rw [ResponseItem.events, List.cons_append, List.append_assoc, assembleFrom, yieldStreamEvent,
      StreamAssemblyState.startReasoningBlock, StreamAssemblyState.appendActiveBlock,
      ← StreamAssemblyState.push, assembleFrom_reasoningDeltas, List.singleton_append, assembleFrom,
      yieldStreamEvent, StreamAssemblyState.finalizeReasoningBlock, state.activeBlock_push]
    simp [NormalizedEvent.isTerminal, ResponseItem.updates, ResponseItem.block,
      ReasoningItem.block, String.join]
  | message item =>
    rw [ResponseItem.events, List.cons_append, List.append_assoc, assembleFrom, yieldStreamEvent,
      StreamAssemblyState.startTextBlock, StreamAssemblyState.appendActiveBlock,
      ← StreamAssemblyState.push, assembleFrom_textDeltas, List.singleton_append, assembleFrom,
      yieldStreamEvent, StreamAssemblyState.finalizeTextBlock, state.activeBlock_push]
    simp [NormalizedEvent.isTerminal, ResponseItem.updates, ResponseItem.block, MessageItem.block]
  | toolCall item =>
    obtain ⟨block, hrest⟩ := assembleFrom_arguments state
      (.toolCallDone item.done.providerItemId item.done.callId item.done.name item.done.arguments
        :: rest)
      { callId := item.added.callId, name := item.added.name, arguments := item.added.arguments }
      item.arguments
    rw [ResponseItem.events, List.cons_append, List.append_assoc, assembleFrom, yieldStreamEvent,
      StreamAssemblyState.startToolCallBlock, StreamAssemblyState.appendActiveBlock,
      ← StreamAssemblyState.push, List.singleton_append, hrest, assembleFrom, yieldStreamEvent,
      StreamAssemblyState.finalizeToolCallBlock, state.activeBlock_push]
    simp [NormalizedEvent.isTerminal, ResponseItem.updates, ResponseItem.block, ToolCallItem.block]

end Item

/-! ## A whole response -/

theorem assembleFrom_items (rest : List NormalizedEvent) (items : List ResponseItem)
    (state : StreamAssemblyState) (hactive : state.activeBlockIndex = none) :
    assembleFrom state (items.flatMap ResponseItem.events ++ rest)
      = (itemUpdates state.blocks.length items).map .update
        ++ assembleFrom { state with blocks := state.blocks ++ items.map ResponseItem.block }
          rest := by
  induction items generalizing state with
  | nil => simp [itemUpdates]
  | cons item items ih =>
    have hrest := ih (state.push item.block none) rfl
    rw [List.flatMap_cons, List.append_assoc, assembleFrom_item, hrest]
    simp [itemUpdates, StreamAssemblyState.push, hactive]

end Tile
