import Tile.Providers.OpenAI.StreamAssembler
import Tile.Runtime.Healing
import Tile.Store.Payload

/-!
# Providers/OpenAI/Serialization — neutral history as OpenAI Responses items

The items of a request, in the order of the conversation.  A stored reasoning payload is validated
by the SDK's model, the parameter `deserialize`.  A replayable history serializes into **calls and
outputs that pair up one to one** (`serialize_pairs`).
-/

namespace Tile

/-- A part of the content of a message, or of a tool's output. -/
inductive InputPart where
  | inputText (text : String)
  | inputImage (imageUrl detail : String)
  deriving Repr, DecidableEq

/-- The output of a function call, as text or in parts. -/
inductive FunctionOutput where
  | text (text : String)
  | parts (parts : List InputPart)
  deriving Repr, DecidableEq

/-- An item of a Responses request.  The arguments of a call are the tree its JSON text stands
for. -/
inductive InputItem where
  | userMessage (content : List InputPart)
  | reasoning (item : Json)
  | message (id : String) (phase : Option MessagePhase) (text : String)
  | functionCall (id callId name : String) (arguments : JsonObject)
  | functionCallOutput (callId : String) (output : FunctionOutput)
  deriving DecidableEq

/-- The signature of a reasoning item did not validate. -/
structure InvalidReasoning where
  signature : String
  deriving Repr, DecidableEq

/-- Read an OpenAI message phase from provider metadata. -/
def readProviderPhase (block : TextBlock) : Option MessagePhase :=
  match metadataString block.providerMetadata "phase" with
  | some "commentary" => some .commentary
  | some "final_answer" => some .finalAnswer
  | _ => none

/-- The id of a message that no provider named. -/
def buildFallbackMessageId (assistantTurnIndex blockIndex : Nat) : String :=
  s!"msg_{assistantTurnIndex}_{blockIndex}"

/-- A user message as one text part. -/
def serializeUserMessage (message : UserMessage) : InputItem :=
  .userMessage [.inputText message.content]

/-- A text block as a message, under the id and the phase that its metadata kept. -/
def serializeAssistantTextBlock (block : TextBlock) (assistantTurnIndex blockIndex : Nat) :
    InputItem :=
  .message
    (orElse (metadataString block.providerMetadata "message_id")
      (buildFallbackMessageId assistantTurnIndex blockIndex))
    (readProviderPhase block) block.text

/-- A tool call under the id that its metadata kept, or else under its call id. -/
def serializeAssistantToolCallBlock (block : ToolCallBlock) : InputItem :=
  .functionCall (orElse (metadataString block.providerMetadata "provider_item_id") block.callId)
    block.callId block.name block.arguments

/-- A tool result that can be replayed as plain text is; any other is a list of parts. -/
def serializeToolResultContent (content : List ToolResultContent) : FunctionOutput :=
  let isText : ToolResultContent → Bool
    | .text _ => true
    | .image _ _ => false
  if content.all isText then
    .text <| "\n".intercalate <| content.filterMap fun
      | .text text => some text
      | .image _ _ => none
  else .parts <| content.map fun
    | .text text => .inputText text
    | .image data mimeType => .inputImage s!"data:{mimeType.name};base64,{data}" "auto"

/-- A tool result as the output of its call. -/
def serializeToolResultTurn (turn : ToolResultTurn) : InputItem :=
  .functionCallOutput turn.callId (serializeToolResultContent turn.content)

section Serialize

variable (deserialize : String → Except InvalidReasoning Json)

/-- The item of one assistant block; a reasoning block without a signature has none. -/
def serializeBlock (assistantTurnIndex blockIndex : Nat) :
    AssistantBlock → Except InvalidReasoning (Option InputItem)
  | .reasoning block =>
    match orElse (metadataString block.providerMetadata "reasoning_signature") "" with
    | "" => return none
    | signature => return some (.reasoning (← deserialize signature))
  | .text block => return some (serializeAssistantTextBlock block assistantTurnIndex blockIndex)
  | .toolCall block => return some (serializeAssistantToolCallBlock block)

/-- The items of the blocks of a turn, from one index on. -/
def serializeBlocks (assistantTurnIndex : Nat) :
    (blockIndex : Nat) → List AssistantBlock → Except InvalidReasoning (List InputItem)
  | _, [] => return []
  | blockIndex, block :: rest => do
    let item ← serializeBlock deserialize assistantTurnIndex blockIndex block
    return item.toList ++ (← serializeBlocks assistantTurnIndex (blockIndex + 1) rest)

/-- The items of a turn, one after another. -/
def serializeAssistantTurn (turn : AssistantTurn) (assistantTurnIndex : Nat) :
    Except InvalidReasoning (List InputItem) :=
  serializeBlocks deserialize assistantTurnIndex 0 turn.blocks

/-- The items of a history whose completed turns are counted from an index on. -/
def serializeItems : (assistantTurnIndex : Nat) → List ConversationItem →
    Except InvalidReasoning (List InputItem)
  | _, [] => return []
  | index, .user message :: rest =>
    return serializeUserMessage message :: (← serializeItems index rest)
  | index, .assistant turn :: rest => do
    if turn.status = .completed then
      return (← serializeAssistantTurn deserialize turn index) ++
        (← serializeItems (index + 1) rest)
    else serializeItems index rest
  | index, .toolResult turn :: rest =>
    return serializeToolResultTurn turn :: (← serializeItems index rest)

/-- Serialize replayable conversation history into OpenAI Responses items. -/
def serializeHistoryItems (history : List ConversationItem) :
    Except InvalidReasoning (List InputItem) :=
  serializeItems deserialize 0 history

end Serialize

/-! ## Calls and outputs -/

/-- The call ids of the `function_call` items, in order. -/
def functionCallIds (items : List InputItem) : List String :=
  items.filterMap fun
    | .functionCall _ callId _ _ => some callId
    | .userMessage _ | .reasoning _ | .message _ _ _ | .functionCallOutput _ _ => none

/-- The call ids of the `function_call_output` items, in order. -/
def functionCallOutputIds (items : List InputItem) : List String :=
  items.filterMap fun
    | .functionCallOutput callId _ => some callId
    | .userMessage _ | .reasoning _ | .message _ _ _ | .functionCall _ _ _ _ => none

@[simp] theorem functionCallIds_append (items items' : List InputItem) :
    functionCallIds (items ++ items') = functionCallIds items ++ functionCallIds items' :=
  List.filterMap_append

@[simp] theorem functionCallOutputIds_append (items items' : List InputItem) :
    functionCallOutputIds (items ++ items')
      = functionCallOutputIds items ++ functionCallOutputIds items' :=
  List.filterMap_append

/-- Calls and outputs pair up: the same ids in the same order, each output after its call. -/
structure Pairs (ids : List String) (items : List InputItem) : Prop where
  calls : functionCallIds items = ids
  outputs : functionCallOutputIds items = ids
  order : ∀ before callId output after,
    items = before ++ .functionCallOutput callId output :: after → callId ∈ functionCallIds before

theorem Pairs.append {ids ids' : List String} {items items' : List InputItem} (h : Pairs ids items)
    (h' : Pairs ids' items') : Pairs (ids ++ ids') (items ++ items') where
  calls := by rw [functionCallIds_append, h.calls, h'.calls]
  outputs := by rw [functionCallOutputIds_append, h.outputs, h'.outputs]
  order := by
    intro before callId output after heq
    rcases List.append_eq_append_iff.mp heq with ⟨more, rfl, hitems'⟩ | ⟨more, rfl, hrest⟩
    · rw [functionCallIds_append]
      exact List.mem_append_right _ (h'.order _ _ _ _ hitems')
    · cases more with
      | nil => exact absurd (h'.order [] callId output after hrest.symm) List.not_mem_nil
      | cons item more =>
        obtain ⟨rfl, -⟩ := List.cons.inj hrest
        exact h.order _ _ _ _ rfl

section Pairing

variable {deserialize : String → Except InvalidReasoning Json}

theorem serializeBlock_ids {assistantTurnIndex blockIndex : Nat} {block : AssistantBlock}
    {item : Option InputItem}
    (h : serializeBlock deserialize assistantTurnIndex blockIndex block = .ok item) :
    functionCallIds item.toList = block.toolCall?.toList.map (·.callId) ∧
      functionCallOutputIds item.toList = [] := by
  cases block with
  | text block =>
    obtain rfl := Except.ok.inj h
    exact ⟨rfl, rfl⟩
  | toolCall block =>
    obtain rfl := Except.ok.inj h
    exact ⟨rfl, rfl⟩
  | reasoning block =>
    rw [serializeBlock] at h
    split at h
    · obtain rfl := Except.ok.inj h
      exact ⟨rfl, rfl⟩
    · obtain ⟨reasoning, -, h⟩ := except_bind_eq_ok.mp h
      obtain rfl := Except.ok.inj h
      exact ⟨rfl, rfl⟩

theorem serializeBlocks_ids {assistantTurnIndex : Nat} :
    ∀ {blocks : List AssistantBlock} {blockIndex : Nat} {items : List InputItem},
      serializeBlocks deserialize assistantTurnIndex blockIndex blocks = .ok items →
        functionCallIds items = (blocks.filterMap AssistantBlock.toolCall?).map (·.callId) ∧
          functionCallOutputIds items = []
  | [], _, items, h => by
    obtain rfl := Except.ok.inj h
    exact ⟨rfl, rfl⟩
  | block :: rest, blockIndex, items, h => by
    obtain ⟨item, hitem, h⟩ := except_bind_eq_ok.mp h
    obtain ⟨others, hothers, h⟩ := except_bind_eq_ok.mp h
    obtain rfl := Except.ok.inj h
    obtain ⟨hcalls, houtputs⟩ := serializeBlock_ids hitem
    obtain ⟨hcalls', houtputs'⟩ := serializeBlocks_ids hothers
    refine ⟨?_, by rw [functionCallOutputIds_append, houtputs, houtputs', List.append_nil]⟩
    rw [functionCallIds_append, hcalls, hcalls', ← List.map_append]
    cases hcall : block.toolCall? <;> simp [hcall]

theorem serializeItems_results {index : Nat} {rest : List ConversationItem} :
    ∀ {results : List ToolResultTurn} {items : List InputItem},
      serializeItems deserialize index (results.map .toolResult ++ rest) = .ok items →
        ∃ others, serializeItems deserialize index rest = .ok others ∧
          items = results.map serializeToolResultTurn ++ others
  | [], items, h => ⟨items, h, rfl⟩
  | _ :: _, _, h => by
    obtain ⟨more, hmore, h⟩ := except_bind_eq_ok.mp h
    obtain rfl := Except.ok.inj h
    obtain ⟨others, hothers, rfl⟩ := serializeItems_results hmore
    exact ⟨others, hothers, rfl⟩

theorem functionCallOutputIds_results (results : List ToolResultTurn) :
    functionCallOutputIds (results.map serializeToolResultTurn) = results.map (·.callId) := by
  induction results with
  | nil => rfl
  | cons result rest ih => exact congrArg (result.callId :: ·) ih

theorem functionCallIds_results (results : List ToolResultTurn) :
    functionCallIds (results.map serializeToolResultTurn) = [] := by
  induction results with
  | nil => rfl
  | cons result rest ih => exact ih

theorem mem_functionCallOutputIds {before after : List InputItem} {callId : String}
    {output : FunctionOutput} {items : List InputItem}
    (h : items = before ++ .functionCallOutput callId output :: after) :
    callId ∈ functionCallOutputIds items :=
  List.mem_filterMap.mpr ⟨_, h ▸ List.mem_append_right _ List.mem_cons_self, rfl⟩

/-- The items of a turn and of its results pair up. -/
theorem pairs_of_answered {calls : List InputItem} (answered : AnsweredTurn)
    (hcalls : functionCallIds calls = answered.turn.toolCalls.map (·.callId))
    (houtputs : functionCallOutputIds calls = []) :
    Pairs (answered.turn.toolCalls.map (·.callId))
      (calls ++ answered.results.map serializeToolResultTurn) where
  calls := by rw [functionCallIds_append, hcalls, functionCallIds_results, List.append_nil]
  outputs := by
    rw [functionCallOutputIds_append, houtputs, functionCallOutputIds_results, List.nil_append,
      map_callId_of_answers answered.answered]
  order := by
    intro before callId output after heq
    rcases List.append_eq_append_iff.mp heq with ⟨more, rfl, hresults⟩ | ⟨more, rfl, hrest⟩
    · have hmem := mem_functionCallOutputIds hresults
      rw [functionCallOutputIds_results, map_callId_of_answers answered.answered, ← hcalls] at hmem
      rw [functionCallIds_append]
      exact List.mem_append_left _ hmem
    · cases more with
      | nil =>
        have hresults : answered.results.map serializeToolResultTurn
            = [] ++ .functionCallOutput callId output :: after := hrest.symm
        have hmem := mem_functionCallOutputIds hresults
        rw [functionCallOutputIds_results, map_callId_of_answers answered.answered,
          ← hcalls] at hmem
        simpa using hmem
      | cons item more =>
        obtain ⟨rfl, -⟩ := List.cons.inj hrest
        exact absurd (mem_functionCallOutputIds rfl) (houtputs ▸ List.not_mem_nil)

theorem Pairs.of_user (message : UserMessage) : Pairs [] [serializeUserMessage message] where
  calls := rfl
  outputs := rfl
  order := by
    intro before callId output after heq
    cases before <;> simp [serializeUserMessage] at heq

/-- **A replayable history serializes into calls and outputs that pair up.** -/
theorem serializeItems_pairs : ∀ {exchanges : List Exchange} {index : Nat} {items : List InputItem},
    serializeItems deserialize index (exchanges.flatMap Exchange.items) = .ok items →
      Pairs ((toolCallsOf (exchanges.flatMap Exchange.items)).map (·.callId)) items
  | [], _, items, h => by
    obtain rfl := Except.ok.inj h
    exact ⟨rfl, rfl, by simp⟩
  | .user message :: rest, _, items, h => by
    obtain ⟨others, hothers, h⟩ := except_bind_eq_ok.mp h
    obtain rfl := Except.ok.inj h
    have hrest : serializeItems deserialize _ (rest.flatMap Exchange.items) = .ok others := hothers
    have hpairs := (Pairs.of_user message).append (serializeItems_pairs hrest)
    exact hpairs
  | .turn answered :: rest, index, items, h => by
    rw [List.flatMap_cons, Exchange.items, List.cons_append, serializeItems,
      if_pos answered.completed] at h
    obtain ⟨calls, hcalls, h⟩ := except_bind_eq_ok.mp h
    obtain ⟨more, hmore, h⟩ := except_bind_eq_ok.mp h
    obtain rfl := Except.ok.inj h
    obtain ⟨others, hothers, rfl⟩ := serializeItems_results hmore
    obtain ⟨hids, houtputs⟩ := serializeBlocks_ids hcalls
    rw [List.flatMap_cons, toolCallsOf_append, List.map_append, Exchange.items,
      toolCallsOf_exchange, ← List.append_assoc]
    exact (pairs_of_answered answered hids houtputs).append (serializeItems_pairs hothers)

theorem serialize_pairs {history : List ConversationItem} (h : Replayable history)
    {items : List InputItem} (hitems : serializeHistoryItems deserialize history = .ok items) :
    Pairs ((toolCallsOf history).map (·.callId)) items := by
  obtain ⟨exchanges, rfl⟩ := h
  exact serializeItems_pairs hitems

end Pairing

end Tile
