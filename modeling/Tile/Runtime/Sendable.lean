import Tile.Providers.OpenAI.Replay
import Tile.Runtime.Growth
import Tile.Runtime.Keeping

/-!
# Runtime/Sendable — what OpenAI runs commit can be sent again

    SDK events ──▸ stream ──▸ turn ──▸ delta ──▸ history ──▸ request

A turn is committed as its stream's done event shows it, and a stream signs a reasoning block with
nothing but the dump of a reasoning item.  So **no request of a session over the OpenAI provider is
kept from being sent**, whatever the SDK's streams showed, if the SDK reads the reasoning items back
that they finished (`openAI_requests_sendable`).
-/

namespace Tile

/-! ## Blocks that serialize -/

section Serialize

variable (deserialize : String → Except InvalidReasoning Json)

/-- The block serializes, wherever it stands. -/
def AssistantBlock.Sendable (block : AssistantBlock) : Prop :=
  ∀ assistantTurnIndex blockIndex, ∃ item,
    serializeBlock deserialize assistantTurnIndex blockIndex block = .ok item

/-- Every turn of the conversation has blocks that serialize. -/
def Sendable (items : List ConversationItem) : Prop :=
  ∀ turn, .assistant turn ∈ items → ∀ block ∈ turn.blocks, block.Sendable deserialize

variable {deserialize}

theorem Sendable.append {items items' : List ConversationItem} (h : Sendable deserialize items)
    (h' : Sendable deserialize items') : Sendable deserialize (items ++ items') := by
  intro turn hturn
  rcases List.mem_append.mp hturn with hturn | hturn
  · exact h turn hturn
  · exact h' turn hturn

theorem serializeBlocks_of_sendable (assistantTurnIndex : Nat) :
    ∀ {blocks : List AssistantBlock} (blockIndex : Nat),
      (∀ block ∈ blocks, block.Sendable deserialize) →
      ∃ items, serializeBlocks deserialize assistantTurnIndex blockIndex blocks = .ok items
  | [], _, _ => ⟨[], rfl⟩
  | block :: rest, blockIndex, h => by
    obtain ⟨hblock, hrest⟩ := List.forall_mem_cons.mp h
    obtain ⟨item, hitem⟩ := hblock assistantTurnIndex blockIndex
    obtain ⟨items, hitems⟩ := serializeBlocks_of_sendable assistantTurnIndex (blockIndex + 1) hrest
    exact ⟨item.toList ++ items, by rw [serializeBlocks, hitem, hitems]; rfl⟩

theorem serializeItems_of_sendable :
    ∀ {items : List ConversationItem} (index : Nat), Sendable deserialize items →
      ∃ inputs, serializeItems deserialize index items = .ok inputs
  | [], _, _ => ⟨[], rfl⟩
  | item :: rest, index, h => by
    have hrest : Sendable deserialize rest := fun turn hturn =>
      h turn (List.mem_cons_of_mem _ hturn)
    obtain ⟨inputs, hinputs⟩ := serializeItems_of_sendable index hrest
    obtain ⟨inputs', hinputs'⟩ := serializeItems_of_sendable (index + 1) hrest
    cases item with
    | user message => exact ⟨_, by rw [serializeItems, hinputs]; rfl⟩
    | toolResult turn => exact ⟨_, by rw [serializeItems, hinputs]; rfl⟩
    | assistant turn =>
      obtain ⟨items, hitems⟩ := serializeBlocks_of_sendable index 0 (h turn List.mem_cons_self)
      rw [serializeItems]
      split
      · exact ⟨items ++ inputs', by rw [serializeAssistantTurn, hitems, hinputs']; rfl⟩
      · exact ⟨inputs, hinputs⟩

end Serialize

/-! ## Streams of such blocks -/

section Stream

variable {loads : String → Option Json} {dumps : Json → String}
  {deserialize : String → Except InvalidReasoning Json}

/-- The SDK reads the reasoning items back that these events finish. -/
def ReadsBack (deserialize : String → Except InvalidReasoning Json) (dumps : Json → String)
    (events : List ResponseStreamEvent) : Prop :=
  ∀ item, .outputItemDone (.reasoning item) ∈ events →
    ∃ json, deserialize (serializeReasoningItem dumps item) = .ok json

/-- The signature of a finished reasoning block can be read. -/
def NormalizedEvent.Signed (deserialize : String → Except InvalidReasoning Json) :
    NormalizedEvent → Prop
  | .reasoningDone _ _ (some signature) => ∃ json, deserialize signature = .ok json
  | _ => True

theorem signed_of_readsBack {events : List ResponseStreamEvent}
    (h : ReadsBack deserialize dumps events) :
    ∀ event ∈ normalizeSdkEvents loads dumps events, event.Signed deserialize := by
  intro event hevent
  obtain ⟨sdkEvent, hmem, hnormalized⟩ := List.mem_filterMap.mp hevent
  cases sdkEvent with
  | outputItemDone item =>
    cases item with
    | reasoning item =>
      obtain rfl := Option.some.inj hnormalized
      exact h item hmem
    | message _ | functionCall _ =>
      obtain rfl := Option.some.inj hnormalized
      trivial
    | other _ => cases hnormalized
  | outputItemAdded item =>
    cases item with
    | reasoning _ | message _ | functionCall _ =>
      obtain rfl := Option.some.inj hnormalized
      trivial
    | other _ => cases hnormalized
  | other _ => cases hnormalized
  | _ =>
    obtain rfl := Option.some.inj hnormalized
    trivial

/-- A reasoning block is sent back by its signature alone. -/
theorem sendable_reasoning {block : ReasoningBlock}
    (h : ∀ signature,
      metadataString block.providerMetadata "reasoning_signature" = some signature →
        ∃ json, deserialize signature = .ok json) :
    (AssistantBlock.reasoning block).Sendable deserialize := by
  intro assistantTurnIndex blockIndex
  cases hsignature : metadataString block.providerMetadata "reasoning_signature" with
  | none => exact ⟨none, by rw [serializeBlock, hsignature]; rfl⟩
  | some signature =>
    obtain ⟨json, hjson⟩ := h signature hsignature
    by_cases hempty : signature = ""
    · exact ⟨none, by rw [serializeBlock, hsignature, hempty]; rfl⟩
    · exact ⟨some (.reasoning json), by simp [serializeBlock, hsignature, orElse, hempty, hjson]⟩

theorem sendable_text (block : TextBlock) : (AssistantBlock.text block).Sendable deserialize :=
  fun _ _ => ⟨_, rfl⟩

theorem sendable_toolCall (block : ToolCallBlock) :
    (AssistantBlock.toolCall block).Sendable deserialize := fun _ _ => ⟨_, rfl⟩

/-- The blocks so far serialize. -/
def StreamAssemblyState.Sendable (deserialize : String → Except InvalidReasoning Json)
    (state : StreamAssemblyState) : Prop :=
  ∀ block ∈ state.blocks, block.Sendable deserialize

namespace StreamAssemblyState.Sendable

variable {state : StreamAssemblyState}

theorem writeBlock (h : state.Sendable deserialize) (index : Nat) {block : AssistantBlock}
    (hblock : block.Sendable deserialize) :
    (state.writeBlock index block).Sendable deserialize := by
  intro other hother
  rcases List.mem_or_eq_of_mem_set hother with hother | rfl
  · exact h other hother
  · exact hblock

theorem appendActiveBlock (h : state.Sendable deserialize) {block : AssistantBlock}
    (hblock : block.Sendable deserialize) (started : Nat → StreamUpdateEvent) :
    (state.appendActiveBlock block started).2.Sendable deserialize := by
  intro other hother
  rcases List.mem_append.mp hother with hother | hother
  · exact h other hother
  · exact List.mem_singleton.mp hother ▸ hblock

theorem activeBlock (h : state.Sendable deserialize) {block : AssistantBlock} {index : Nat}
    (hactive : state.activeBlock = some (block, index)) : block.Sendable deserialize :=
  h block (List.mem_of_getElem? (activeBlock_eq_some.mp hactive).2)

/-- **Each event leaves blocks that serialize.** -/
theorem yieldStreamEvent (h : state.Sendable deserialize) {event : NormalizedEvent}
    (hsigned : event.Signed deserialize) :
    (Tile.yieldStreamEvent state event).2.Sendable deserialize := by
  cases event with
  | created _ | completed _ | incomplete _ _ | failed _ => exact h
  | reasoningAdded _ =>
    exact h.appendActiveBlock (sendable_reasoning fun _ hnone => by cases hnone) _
  | messageAdded _ _ => exact h.appendActiveBlock (sendable_text _) _
  | toolCallAdded _ _ _ _ => exact h.appendActiveBlock (sendable_toolCall _) _
  | reasoningDelta delta =>
    simp only [Tile.yieldStreamEvent, appendReasoningDelta]
    split
    next block index hactive =>
      have hblock : (AssistantBlock.reasoning block).Sendable deserialize := h.activeBlock hactive
      exact h.writeBlock index hblock
    next => exact h
  | reasoningDone itemId summaryText signature =>
    simp only [Tile.yieldStreamEvent, finalizeReasoningBlock]
    split
    next block index hactive =>
      have hblock : (AssistantBlock.reasoning { block with
          summaryText := if summaryText = "" then block.summaryText else summaryText
          providerMetadata := ProviderMetadata.fromValues [("reasoning_signature", signature)]
          }).Sendable deserialize := by
        refine sendable_reasoning fun value hvalue => ?_
        cases signature with
        | none => cases hvalue
        | some signature =>
          rw [metadataString_fromValues_cons] at hvalue
          obtain rfl := Option.some.inj hvalue
          exact hsigned
      exact h.writeBlock index hblock
    next => exact h
  | messageTextDelta delta =>
    simp only [Tile.yieldStreamEvent, appendTextDelta]
    split
    next block index hactive => exact h.writeBlock index (sendable_text _)
    next => exact h
  | messageDone itemId text phase =>
    simp only [Tile.yieldStreamEvent, finalizeTextBlock]
    split
    next block index hactive => exact h.writeBlock index (sendable_text _)
    next => exact h
  | toolCallArgumentsDelta delta =>
    simp only [Tile.yieldStreamEvent, appendToolCallArgumentsDelta]
    split <;> exact h
  | toolCallArgumentsDone arguments =>
    simp only [Tile.yieldStreamEvent, replaceToolCallArguments]
    split
    next block index hactive => exact h.writeBlock index (sendable_toolCall _)
    next => exact h
  | toolCallDone itemId callId name arguments =>
    simp only [Tile.yieldStreamEvent, finalizeToolCallBlock]
    split
    next block index hactive => exact h.writeBlock index (sendable_toolCall _)
    next => exact h

end StreamAssemblyState.Sendable

/-- A done event shows the blocks so far. -/
theorem blocks_of_yield_done {state : StreamAssemblyState} {event : NormalizedEvent}
    {done : StreamDoneEvent} (h : (yieldStreamEvent state event).1 = some (.done done)) :
    done.blocks = state.blocks := by
  cases hterminal : event.isTerminal with
  | false => cases yieldStreamEvent_of_not_terminal state hterminal _ h
  | true =>
    obtain ⟨last, hlast, hblocks, -⟩ := yieldStreamEvent_finalBlocks state hterminal
    obtain rfl := Option.some.inj (h.symm.trans hlast)
    exact Option.some.inj hblocks

/-- **A done event of a stream shows blocks that serialize.** -/
theorem sendable_of_done : ∀ {events : List NormalizedEvent} {state : StreamAssemblyState},
    state.Sendable deserialize → (∀ event ∈ events, event.Signed deserialize) →
    ∀ done, .done done ∈ assembleFrom state events →
      ∀ block ∈ done.blocks, block.Sendable deserialize
  | [], _, _, _, _, hdone => absurd hdone List.not_mem_nil
  | event :: rest, state, hstate, hsigned, done, hdone => by
    obtain ⟨hevent, hrest⟩ := List.forall_mem_cons.mp hsigned
    rw [assembleFrom, List.mem_append, Option.mem_toList] at hdone
    rcases hdone with hdone | hdone
    · rw [blocks_of_yield_done hdone]
      exact hstate
    · split at hdone
      · cases hdone
      · exact sendable_of_done (hstate.yieldStreamEvent hevent) hrest done hdone

end Stream

/-! ## Where the turns of a run come from -/

/-- Every turn that the run has observed shows a done event with `P`. -/
def Live.Streams (P : StreamDoneEvent → Prop) (live : Live) : Prop :=
  ∀ turn, .assistant turn ∈ live.execution.history.delta →
    ∃ done, P done ∧ turn = .fromStreamDone done

theorem Live.Streams.invariant (P : StreamDoneEvent → Prop) :
    Live.Invariant P (fun _ _ => True) (Live.Streams P) where
  request := fun _ hlive => hlive
  emit := by
    intro event live hshows hlive turn hturn
    rcases List.mem_append.mp hturn with hturn | hturn
    · exact hlive turn hturn
    · cases event with
      | messageEnd shown =>
        rw [conversationItemFor] at hturn
        split at hturn
        · cases hturn
        next hcompleted =>
          obtain rfl : turn = shown := by simpa using hturn
          exact hshows turn rfl (of_not_not hcompleted)
      | toolExecutionEnd _ | resultFollowUp _ => simp [conversationItemFor] at hturn
      | _ => cases hturn

/-- **Every assistant turn of a run's delta shows a done event of its streams.** -/
theorem PromptRun.Ends.streams {P : StreamDoneEvent → Prop} {run : PromptRun} (h : run.Ends P)
    {turn : AssistantTurn} (hturn : .assistant turn ∈ run.delta) :
    ∃ done, P done ∧ turn = .fromStreamDone done := by
  have hinit : Live.Streams P { execution := .init run.record run.committedHistory } := by
    intro turn hturn
    cases List.mem_singleton.mp hturn
  have hstreams := (Live.Streams.invariant P).executed h (fun _ _ _ _ _ _ => trivial) hinit
  rw [run.delta_eq] at hturn
  rcases List.mem_append.mp hturn with hturn | hturn
  · exact hstreams turn hturn
  · obtain ⟨result, -, hresult⟩ := List.mem_map.mp hturn
    cases hresult

/-! ## Sessions over OpenAI -/

section Session

variable {loads : String → Option Json} {dumps : Json → String}
  {deserialize : String → Except InvalidReasoning Json}

/-- The run's provider streams what the SDK shows, whatever it is, and the SDK reads the reasoning
items back that it finished. -/
def PromptRun.OverOpenAI (loads : String → Option Json) (dumps : Json → String)
    (deserialize : String → Except InvalidReasoning Json) (run : PromptRun) : Prop :=
  ∀ attempt ∈ run.script.attempts, ∀ script ∈ attempt.turns, ∃ model events,
    script.events = openAIStream loads dumps model events ∧ ReadsBack deserialize dumps events

/-- What such a run commits can be sent. -/
theorem PromptRun.OverOpenAI.sendable {run : PromptRun}
    (h : run.OverOpenAI loads dumps deserialize) : Sendable deserialize run.delta := by
  have hends : run.Ends fun done => ∀ block ∈ done.blocks, block.Sendable deserialize := by
    intro attempt hattempt script hscript last hlast
    obtain ⟨model, events, hevents, hreads⟩ := h attempt hattempt script hscript
    rw [hevents] at hlast
    exact sendable_of_done (fun _ hblock => absurd hblock List.not_mem_nil)
      (signed_of_readsBack hreads) last hlast
  intro turn hturn
  obtain ⟨last, hlast, rfl⟩ := hends.streams hturn
  exact hlast

/-- What runs over OpenAI committed can be sent. -/
theorem Trace.sendable [JsonParser] {runOf : String → PromptRun} {events : List StoreEvent}
    {db : Database}
    (h : Trace {} events db) (hruns : FinishesPromptRuns runOf events)
    (hprovider : ∀ runId, (runOf runId).OverOpenAI loads dumps deserialize) (sessionId : String) :
    Sendable deserialize (db.ledgerItems sessionId) := by
  obtain ⟨runIds, hrunIds⟩ := Trace.holdsDeltas h hruns sessionId
  have hitems : db.ledgerItems sessionId = runIds.flatMap fun runId => (runOf runId).delta := by
    rw [← map_snd_runItems, ← hrunIds, Database.ledgerItems, List.map_map]
    rfl
  intro turn hturn
  rw [hitems] at hturn
  obtain ⟨runId, -, hdelta⟩ := List.mem_flatMap.mp hturn
  exact (hprovider runId).sendable turn hdelta

/-- **No request over OpenAI is kept from being sent.**  In any interleaving of calls, by whatever
processes and on whatever backend, in which runs are prompt runs over the OpenAI provider on the
history they were started with: whatever the SDK's streams showed in these runs and wherever runs
were stopped, each request of each run that was started serializes, if the SDK reads the reasoning
items back that it finished. -/
theorem openAI_requests_sendable [JsonParser] {runOf : String → PromptRun}
    {events : List StoreEvent} {db : Database}
    (h : Trace {} events db) (hstarts : StartsPromptRuns runOf events)
    (hruns : FinishesPromptRuns runOf events)
    (hprovider : ∀ runId, (runOf runId).OverOpenAI loads dumps deserialize)
    {event : StoreEvent} (hevent : event ∈ events) {started : StartedRun}
    (hstarted : event.started? = some started) :
    ∀ request ∈ (runOf started.run.id).executed.2.requests,
      ∃ inputs, serializeHistoryItems deserialize request.history = .ok inputs := by
  intro request hrequest
  obtain ⟨before, after, rfl⟩ := List.append_of_mem hevent
  obtain ⟨db₁, db₂, hbefore, hstart, -⟩ := h.split_at
  have hcommitted :
      Sendable deserialize ((runOf started.run.id).committedHistory.map (·.item)) := by
    rw [hstarts event hevent started hstarted,
      ← (Trace.valid_of_empty hbefore).ledgerItems_eq (hstart.history_started hstarted)]
    exact Trace.sendable hbefore (fun other hother => hruns other (List.mem_append_left _ hother))
      hprovider _
  have hshown := hcommitted.append (hprovider started.run.id).sendable
  have hrest := (runOf started.run.id).request_shown request hrequest
  exact serializeItems_of_sendable 0 fun turn hturn => hshown turn (hrest.subset hturn)

/-- The model thinks, lists a directory and answers. -/
def thinkingRun : PromptRun := { toolRun with
  committedHistory := []
  script := { attempts := [{ turns := listingResponses.map listingScript }] } }

theorem overOpenAI_thinkingRun :
    thinkingRun.OverOpenAI listingLoads listingDumps listingDeserialize := by
  intro attempt hattempt script hscript
  obtain rfl := List.mem_singleton.mp hattempt
  obtain ⟨response, hresponse, rfl⟩ := List.mem_map.mp hscript
  refine ⟨"model", .other "response.in_progress" :: response.events, rfl, fun item hitem => ?_⟩
  have hdumped : item.dump = .obj [("id", .str "rs_1")] := by
    simp only [listingResponses, List.mem_cons, List.not_mem_nil, or_false] at hresponse
    rcases hresponse with rfl | rfl <;>
      simp [StreamedResponse.events, StreamedItem.events, StreamedResponse.ending] at hitem
    rw [hitem]
  exact ⟨_, by rw [serializeReasoningItem, hdumped]; rfl⟩

/-- A session, and a run in it. -/
def startScript : List (Call × Ambient) :=
  [(.createSession "s", ⟨1, fun _ => "h", []⟩),
    (.startRun "s" "r" "prompt" "model" "provider", ⟨2, fun _ => "h", []⟩)]

/-- The second request of the run shows its first turn. -/
theorem openAI_requests_sendable_thinking :
    thinkingRun.executed.2.requests.length = 2 ∧
      ∀ request ∈ thinkingRun.executed.2.requests,
        ∃ inputs, serializeHistoryItems listingDeserialize request.history = .ok inputs := by
  have hhistories : (play {} startScript).1.map (·.started?.map fun started =>
      started.committedHistory) = [none, some []] := by decide +kernel
  obtain ⟨created, start, hevents⟩ : ∃ created start,
      (play {} startScript).1 = [created, start] := ⟨_, _, rfl⟩
  have htrace := hevents ▸ trace_play startScript {}
  rw [hevents] at hhistories
  simp only [List.map_cons, List.map_nil, List.cons.injEq, Option.map_eq_none_iff,
    Option.map_eq_some_iff] at hhistories
  obtain ⟨hcreated, ⟨started, hstarted, hhistory⟩, -⟩ := hhistories
  have hstarts : StartsPromptRuns (fun _ => thinkingRun) [created, start] := by
    intro event hevent other hother
    rcases List.mem_pair.mp hevent with rfl | rfl
    · cases hcreated.symm.trans hother
    · obtain rfl := Option.some.inj (hstarted.symm.trans hother)
      exact hhistory.symm
  have hcalls := play_calls startScript {}
  rw [hevents] at hcalls
  have hruns : FinishesPromptRuns (fun _ => thinkingRun) [created, start] := by
    intro event hevent sessionId runId outcome delta run hcall _
    have hmem := List.mem_map_of_mem (f := StoreEvent.call) hevent
    rw [hcalls, hcall] at hmem
    simp [startScript] at hmem
  exact ⟨rfl, openAI_requests_sendable htrace hstarts hruns (fun _ => overOpenAI_thinkingRun)
    (List.mem_cons_of_mem _ List.mem_cons_self) hstarted⟩

end Session

end Tile
