import Tile.Providers.OpenAI.ToolCalls

/-!
# Providers/OpenAI/Replay — streamed updates replay to the final message

    updates ──applyUpdate──▸ blocks a consumer has  =  blocks the assembler has

A consumer sees the updates only: it appends a block at a start, appends text at a delta and takes
over the block of an end.  `Mirrors` ties its blocks to those of the assembly and to the active one,
which is always the last; one lemma per event keeps it.  **Whatever the normalized events are, the
terminal event carries the consumer's blocks**, but for the arguments of a tool call that never
ended, which no update shows (`updates_replay_to_message`).
-/

namespace Tile

/-! ## Updates -/

inductive BlockKind where
  | reasoning | text | toolCall
  deriving Repr, DecidableEq

def AssistantBlock.kind : AssistantBlock → BlockKind
  | .reasoning _ => .reasoning
  | .text _ => .text
  | .toolCall _ => .toolCall

namespace StreamUpdateEvent

/-- The block an update is about. -/
def contentIndex : StreamUpdateEvent → Nat
  | reasoningStart index | reasoningDelta index _ | reasoningEnd index _ => index
  | textStart index | textDelta index _ | textEnd index _ => index
  | toolCallStart index _ _ | toolCallDelta index _ | toolCallEnd index _ => index

def kind : StreamUpdateEvent → BlockKind
  | reasoningStart _ | reasoningDelta _ _ | reasoningEnd _ _ => .reasoning
  | textStart _ | textDelta _ _ | textEnd _ _ => .text
  | toolCallStart _ _ _ | toolCallDelta _ _ | toolCallEnd _ _ => .toolCall

def isStart : StreamUpdateEvent → Bool
  | reasoningStart _ | textStart _ | toolCallStart _ _ _ => true
  | _ => false

def isEnd : StreamUpdateEvent → Bool
  | reasoningEnd _ _ | textEnd _ _ | toolCallEnd _ _ => true
  | _ => false

end StreamUpdateEvent

/-- The updates of a stream. -/
def updatesOf (stream : List ProviderStreamEvent) : List StreamUpdateEvent :=
  stream.filterMap fun
    | .update event => some event
    | _ => none

/-- The final blocks a terminal event carries. -/
def ProviderStreamEvent.finalBlocks : ProviderStreamEvent → Option (List AssistantBlock)
  | .done event => some event.blocks
  | .error event => some event.blocks
  | .streamStart _ _ | .update _ => none

def starts (updates : List StreamUpdateEvent) : List StreamUpdateEvent := updates.filter (·.isStart)

/-- The indices of the blocks that ended. -/
def endedIndices (updates : List StreamUpdateEvent) : List Nat :=
  (updates.filter (·.isEnd)).map (·.contentIndex)

/-- An update that follows `before` is consistent: a start takes the next index; any other update is
about the block that started last, is of its kind, and comes before its end. -/
def ConsistentUpdate (before : List StreamUpdateEvent) (update : StreamUpdateEvent) : Prop :=
  if update.isStart then update.contentIndex = (starts before).length
  else ∃ start, (starts before).getLast? = some start ∧ update.contentIndex = start.contentIndex ∧
    update.kind = start.kind ∧ update.contentIndex ∉ endedIndices before

def ConsistentUpdates (updates : List StreamUpdateEvent) : Prop :=
  ∀ before update, before ++ [update] <+: updates → ConsistentUpdate before update

/-! ## A consumer of the updates -/

def AssistantBlock.appendDelta (delta : String) : AssistantBlock → AssistantBlock
  | .text block => .text { block with text := block.text ++ delta }
  | .reasoning block => .reasoning { block with summaryText := block.summaryText ++ delta }
  | .toolCall block => .toolCall block

/-- What a consumer does on one update. -/
def applyUpdate (blocks : List AssistantBlock) : StreamUpdateEvent → List AssistantBlock
  | .reasoningStart _ => blocks ++ [.reasoning { summaryText := "" }]
  | .textStart _ => blocks ++ [.text { text := "" }]
  | .toolCallStart _ callId name => blocks ++ [.toolCall { callId, name }]
  | .reasoningDelta index delta | .textDelta index delta =>
    blocks.modify index (·.appendDelta delta)
  | .toolCallDelta _ _ => blocks
  | .reasoningEnd index block => blocks.set index (.reasoning block)
  | .textEnd index block => blocks.set index (.text block)
  | .toolCallEnd index block => blocks.set index (.toolCall block)

/-- The blocks a consumer has after some updates. -/
def replayUpdates (updates : List StreamUpdateEvent) : List AssistantBlock :=
  updates.foldl applyUpdate []

/-- The block but for the arguments of a tool call. -/
def AssistantBlock.withoutArguments : AssistantBlock → AssistantBlock
  | .toolCall call => .toolCall { call with arguments := [] }
  | .text block => .text block
  | .reasoning block => .reasoning block

/-- What updates that ended these blocks show of a message: all but the arguments of the tool calls
that did not end. -/
def shown (ended : List Nat) (blocks : List AssistantBlock) : List AssistantBlock :=
  blocks.mapIdx fun index block => if index ∈ ended then block else block.withoutArguments

section Shown

variable {ended : List Nat} {blocks : List AssistantBlock} {index : Nat}
  {old block : AssistantBlock}

theorem getElem?_shown (h : blocks[index]? = some old) (hopen : index ∉ ended) :
    (shown ended blocks)[index]? = some old.withoutArguments := by
  simp [shown, h, hopen]

theorem shown_append (hopen : blocks.length ∉ ended) :
    shown ended (blocks ++ [block]) = shown ended blocks ++ [block.withoutArguments] := by
  simp [shown, hopen]

theorem shown_set (hopen : index ∉ ended) :
    shown ended (blocks.set index block)
      = (shown ended blocks).set index block.withoutArguments := by
  simp [shown, hopen]

theorem shown_ended : shown (ended ++ [index]) (blocks.set index block)
    = (shown ended blocks).set index block := by
  refine List.ext_getElem? fun i => ?_
  simp only [shown, List.mapIdx_set, List.mem_append, List.mem_singleton, or_true, if_true,
    List.getElem?_set, List.length_mapIdx, List.getElem?_mapIdx]
  by_cases h : index = i
  · simp [h]
  · simp [h, Ne.symm h]

end Shown

theorem modify_of_getElem? {α : Type} {items : List α} {index : Nat} {a : α}
    (h : items[index]? = some a) (f : α → α) : items.modify index f = items.set index (f a) := by
  refine List.ext_getElem? fun i => ?_
  rw [List.getElem?_modify, List.getElem?_set]
  by_cases hi : index = i
  · subst hi
    obtain ⟨hlt, rfl⟩ := List.getElem?_eq_some_iff.mp h
    simp [hlt]
  · simp [hi]

/-! ## The consumer mirrors the assembly -/

/-- After these updates the consumer has what the assembly shows. -/
structure Mirrors (updates : List StreamUpdateEvent) (state : StreamAssemblyState) : Prop where
  consistent : ConsistentUpdates updates
  started : (starts updates).map (fun start => (start.contentIndex, start.kind))
    = state.blocks.mapIdx fun index block => (index, block.kind)
  active : ∀ index, state.activeBlockIndex = some index →
    index + 1 = state.blocks.length ∧ index ∉ endedIndices updates
  ended : ∀ index ∈ endedIndices updates, index < state.blocks.length
  replayed : replayUpdates updates = shown (endedIndices updates) state.blocks

theorem ConsistentUpdates.snoc {updates : List StreamUpdateEvent} {update : StreamUpdateEvent}
    (h : ConsistentUpdates updates) (hupdate : ConsistentUpdate updates update) :
    ConsistentUpdates (updates ++ [update]) := by
  intro before next hprefix
  rcases List.prefix_concat_iff.mp hprefix with heq | hprefix
  · obtain ⟨rfl, hlast⟩ := List.append_inj' heq rfl
    obtain rfl : next = update := by simpa using hlast
    exact hupdate
  · exact h before next hprefix

@[simp] theorem replayUpdates_snoc (updates : List StreamUpdateEvent) (update : StreamUpdateEvent) :
    replayUpdates (updates ++ [update]) = applyUpdate (replayUpdates updates) update := by
  simp [replayUpdates]

theorem endedIndices_snoc_of_not_isEnd (updates : List StreamUpdateEvent)
    {update : StreamUpdateEvent} (h : update.isEnd = false) :
    endedIndices (updates ++ [update]) = endedIndices updates := by
  simp [endedIndices, List.filter_append, h]

theorem endedIndices_snoc_of_isEnd (updates : List StreamUpdateEvent) {update : StreamUpdateEvent}
    (h : update.isEnd = true) :
    endedIndices (updates ++ [update]) = endedIndices updates ++ [update.contentIndex] := by
  simp [endedIndices, List.filter_append, h]

theorem starts_snoc_of_not_isStart {updates : List StreamUpdateEvent} {update : StreamUpdateEvent}
    (h : update.isStart = false) : starts (updates ++ [update]) = starts updates := by
  simp [starts, List.filter_append, h]

theorem starts_snoc_of_isStart {updates : List StreamUpdateEvent} {update : StreamUpdateEvent}
    (h : update.isStart = true) : starts (updates ++ [update]) = starts updates ++ [update] := by
  simp [starts, List.filter_append, h]

theorem set_of_getElem? {α : Type} {items : List α} {index : Nat} {a : α}
    (h : items[index]? = some a) : items.set index a = items := by
  obtain ⟨hlt, rfl⟩ := List.getElem?_eq_some_iff.mp h
  exact List.set_getElem_self hlt

/-- Rewriting a block as one of its kind. -/
theorem mapIdx_kind_set {blocks : List AssistantBlock} {index : Nat} {old block : AssistantBlock}
    (hold : blocks[index]? = some old) (hkind : block.kind = old.kind) :
    ((blocks.set index block).mapIdx fun i block => (i, block.kind))
      = blocks.mapIdx fun i block => (i, block.kind) := by
  rw [List.mapIdx_set, hkind]
  exact set_of_getElem? (by simp [hold])

namespace Mirrors

variable {updates : List StreamUpdateEvent} {state state' : StreamAssemblyState}
  {update : StreamUpdateEvent} {old block : AssistantBlock} {index : Nat}

theorem initial (source : ProviderSource) : Mirrors [] { source } where
  consistent := fun before update h => by simp at h
  started := rfl
  active := by simp
  ended := by simp [endedIndices]
  replayed := rfl

theorem length_starts (h : Mirrors updates state) :
    (starts updates).length = state.blocks.length := by
  simpa using congrArg List.length h.started

/-- An update about the active block is about the block that started last. -/
theorem consistentUpdate (h : Mirrors updates state)
    (hactive : state.activeBlock = some (old, index)) (hstart : update.isStart = false)
    (hindex : update.contentIndex = index) (hkind : update.kind = old.kind) :
    ConsistentUpdate updates update := by
  obtain ⟨hat, hold⟩ := StreamAssemblyState.activeBlock_eq_some.mp hactive
  obtain ⟨hlast, hopen⟩ := h.active index hat
  have hlength := h.length_starts
  have hget : ((starts updates).map fun start => (start.contentIndex, start.kind))[index]?
      = some (index, old.kind) := by
    rw [h.started]
    simp [hold]
  rw [List.getElem?_map] at hget
  obtain ⟨start, hstarted, hpair⟩ := Option.map_eq_some_iff.mp hget
  rw [ConsistentUpdate, if_neg (by simp [hstart])]
  refine ⟨start, ?_, ?_, ?_, hindex ▸ hopen⟩
  · rw [List.getLast?_eq_getElem?, hlength, ← hlast]
    exact hstarted
  · exact hindex.trans (congrArg Prod.fst hpair).symm
  · exact hkind.trans (congrArg Prod.snd hpair).symm

/-- A new block. -/
theorem start (h : Mirrors updates state) (hstart : update.isStart = true)
    (hend : update.isEnd = false) (hindex : update.contentIndex = state.blocks.length)
    (hkind : update.kind = block.kind)
    (happly : ∀ blocks, applyUpdate blocks update = blocks ++ [block.withoutArguments])
    (hblocks : state'.blocks = state.blocks ++ [block])
    (hactive : state'.activeBlockIndex = some state.blocks.length) :
    Mirrors (updates ++ [update]) state' := by
  have hnew : state.blocks.length ∉ endedIndices updates := fun hmem =>
    Nat.lt_irrefl _ (h.ended _ hmem)
  have hended := endedIndices_snoc_of_not_isEnd updates hend
  refine
    { consistent := h.consistent.snoc ?consistent
      started := ?started
      active := ?active
      ended := ?ended
      replayed := ?replayed }
  case consistent => rw [ConsistentUpdate, if_pos hstart, hindex, h.length_starts]
  case started =>
    rw [starts_snoc_of_isStart hstart, List.map_append, h.started, hblocks, List.mapIdx_concat,
      List.map_singleton, hindex, hkind]
  case active =>
    intro index hindex
    obtain rfl : state.blocks.length = index := Option.some.inj (hactive.symm.trans hindex)
    exact ⟨by rw [hblocks, List.length_append, List.length_singleton], hended ▸ hnew⟩
  case ended =>
    intro index hmem
    rw [hblocks, List.length_append, List.length_singleton]
    exact Nat.lt_succ_of_lt (h.ended index (hended ▸ hmem))
  case replayed =>
    rw [replayUpdates_snoc, h.replayed, happly, hended, hblocks, shown_append hnew]

/-- An event no update shows, which rewrites the arguments of the active block at most. -/
theorem rewrite (h : Mirrors updates state) (hactive : state.activeBlock = some (old, index))
    (hkind : block.kind = old.kind) (hsame : block.withoutArguments = old.withoutArguments) :
    Mirrors updates (state.writeBlock index block) := by
  obtain ⟨hat, hold⟩ := StreamAssemblyState.activeBlock_eq_some.mp hactive
  obtain ⟨-, hopen⟩ := h.active index hat
  refine
    { consistent := h.consistent
      started := ?started
      active := ?active
      ended := ?ended
      replayed := ?replayed }
  case started =>
    rw [h.started]
    exact (mapIdx_kind_set hold hkind).symm
  case active => simpa [StreamAssemblyState.writeBlock] using h.active
  case ended => simpa [StreamAssemblyState.writeBlock] using h.ended
  case replayed =>
    rw [h.replayed, StreamAssemblyState.writeBlock, shown_set hopen, hsame]
    exact (set_of_getElem? (getElem?_shown hold hopen)).symm

/-- A delta of the active block. -/
theorem delta (h : Mirrors updates state) (hactive : state.activeBlock = some (old, index))
    (hstart : update.isStart = false) (hend : update.isEnd = false)
    (hindex : update.contentIndex = index) (hupdate : update.kind = old.kind)
    (hkind : block.kind = old.kind)
    (happly : ∀ blocks, blocks[index]? = some old.withoutArguments →
      applyUpdate blocks update = blocks.set index block.withoutArguments) :
    Mirrors (updates ++ [update]) (state.writeBlock index block) := by
  obtain ⟨hat, hold⟩ := StreamAssemblyState.activeBlock_eq_some.mp hactive
  obtain ⟨hlast, hopen⟩ := h.active index hat
  have hended := endedIndices_snoc_of_not_isEnd updates hend
  refine
    { consistent := h.consistent.snoc (h.consistentUpdate hactive hstart hindex hupdate)
      started := ?started
      active := ?active
      ended := ?ended
      replayed := ?replayed }
  case started =>
    rw [starts_snoc_of_not_isStart hstart, h.started]
    exact (mapIdx_kind_set hold hkind).symm
  case active => simpa [hended, StreamAssemblyState.writeBlock] using h.active
  case ended => simpa [hended, StreamAssemblyState.writeBlock] using h.ended
  case replayed =>
    rw [replayUpdates_snoc, h.replayed, happly _ (getElem?_shown hold hopen), hended,
      StreamAssemblyState.writeBlock, shown_set hopen]

/-- The end of the active block. -/
theorem finish (h : Mirrors updates state) (hactive : state.activeBlock = some (old, index))
    (hstart : update.isStart = false) (hend : update.isEnd = true)
    (hindex : update.contentIndex = index) (hupdate : update.kind = old.kind)
    (hkind : block.kind = old.kind)
    (happly : ∀ blocks, applyUpdate blocks update = blocks.set index block) :
    Mirrors (updates ++ [update]) (state.writeBlock index block).clearActiveBlock := by
  obtain ⟨hat, hold⟩ := StreamAssemblyState.activeBlock_eq_some.mp hactive
  have hended := endedIndices_snoc_of_isEnd updates hend
  refine
    { consistent := h.consistent.snoc (h.consistentUpdate hactive hstart hindex hupdate)
      started := ?started
      active := by simp [StreamAssemblyState.clearActiveBlock]
      ended := ?ended
      replayed := ?replayed }
  case started =>
    rw [starts_snoc_of_not_isStart hstart, h.started]
    exact (mapIdx_kind_set hold hkind).symm
  case ended =>
    intro i hi
    rw [hended, hindex] at hi
    simp only [StreamAssemblyState.clearActiveBlock, StreamAssemblyState.writeBlock,
      List.length_set]
    rcases List.mem_append.mp hi with hi | hi
    · exact h.ended i hi
    · obtain rfl := List.mem_singleton.mp hi
      exact StreamAssemblyState.lt_length_of_activeBlock hactive
  case replayed =>
    rw [replayUpdates_snoc, h.replayed, happly, hended, hindex]
    exact shown_ended.symm

/-- An event that touches no block. -/
theorem ignore (h : Mirrors updates state) (hblocks : state'.blocks = state.blocks)
    (hactive : state'.activeBlockIndex = state.activeBlockIndex) : Mirrors updates state' where
  consistent := h.consistent
  started := hblocks ▸ h.started
  active := hblocks ▸ hactive ▸ h.active
  ended := hblocks ▸ h.ended
  replayed := hblocks ▸ h.replayed

/-- **One event keeps the consumer in step.** -/
theorem yieldStreamEvent (h : Mirrors updates state) {event : NormalizedEvent}
    (hevent : event.isTerminal = false) :
    Mirrors (updates ++ updatesOf (yieldStreamEvent state event).1.toList)
      (yieldStreamEvent state event).2 := by
  cases event with
  | created responseId =>
    have hsame : Mirrors updates { state with responseId := some responseId } := h.ignore rfl rfl
    simpa [updatesOf, Tile.yieldStreamEvent, StreamAssemblyState.recordCreatedEvent] using hsame
  | reasoningAdded itemId => exact h.start rfl rfl rfl rfl (fun _ => rfl) rfl rfl
  | messageAdded itemId phase => exact h.start rfl rfl rfl rfl (fun _ => rfl) rfl rfl
  | toolCallAdded itemId callId name arguments =>
    exact h.start rfl rfl rfl rfl (fun _ => rfl) rfl rfl
  | reasoningDelta delta =>
    simp only [Tile.yieldStreamEvent, StreamAssemblyState.appendReasoningDelta]
    split
    next block index hactive =>
      exact h.delta hactive rfl rfl rfl rfl rfl fun _ hview => modify_of_getElem? hview _
    next => simpa [updatesOf] using h
  | messageTextDelta delta =>
    simp only [Tile.yieldStreamEvent, StreamAssemblyState.appendTextDelta]
    split
    next block index hactive =>
      exact h.delta hactive rfl rfl rfl rfl rfl fun _ hview => modify_of_getElem? hview _
    next => simpa [updatesOf] using h
  | toolCallArgumentsDelta delta =>
    simp only [Tile.yieldStreamEvent, StreamAssemblyState.appendToolCallArgumentsDelta]
    split
    next call index hactive =>
      have hold := (StreamAssemblyState.activeBlock_eq_some.mp hactive).2
      have hwrite : state.writeBlock index (.toolCall call) = state := by
        rw [StreamAssemblyState.writeBlock, set_of_getElem? hold]
      have hdelta : Mirrors (updates ++ [.toolCallDelta index delta])
          (state.writeBlock index (.toolCall call)) :=
        h.delta hactive rfl rfl rfl rfl rfl fun _ hview => (set_of_getElem? hview).symm
      exact hwrite ▸ hdelta
    next => simpa [updatesOf] using h
  | toolCallArgumentsDone arguments =>
    simp only [Tile.yieldStreamEvent, StreamAssemblyState.replaceToolCallArguments]
    split
    next call index hactive =>
      have hwrite : Mirrors updates (state.writeBlock index (.toolCall { call with arguments })) :=
        h.rewrite hactive rfl rfl
      simpa [updatesOf] using hwrite
    next => simpa [updatesOf] using h
  | reasoningDone itemId summaryText signature =>
    simp only [Tile.yieldStreamEvent, StreamAssemblyState.finalizeReasoningBlock]
    split
    next block index hactive => exact h.finish hactive rfl rfl rfl rfl rfl fun _ => rfl
    next => simpa [updatesOf] using h
  | messageDone itemId text phase =>
    simp only [Tile.yieldStreamEvent, StreamAssemblyState.finalizeTextBlock]
    split
    next block index hactive => exact h.finish hactive rfl rfl rfl rfl rfl fun _ => rfl
    next => simpa [updatesOf] using h
  | toolCallDone itemId callId name arguments =>
    simp only [Tile.yieldStreamEvent, StreamAssemblyState.finalizeToolCallBlock]
    split
    next call index hactive => exact h.finish hactive rfl rfl rfl rfl rfl fun _ => rfl
    next => simpa [updatesOf] using h
  | completed _ | incomplete _ _ | failed _ => simp [NormalizedEvent.isTerminal] at hevent

end Mirrors

/-! ## Whole streams -/

/-- What a stream that is assembled after `before` shows: consistent updates, and at most one
terminal event, the last, with the consumer's blocks. -/
structure Shows (before : List StreamUpdateEvent) (stream : List ProviderStreamEvent) : Prop where
  consistent : ConsistentUpdates (before ++ updatesOf stream)
  final : ∀ pre event post blocks, stream = pre ++ event :: post →
    event.finalBlocks = some blocks → post = [] ∧
      replayUpdates (before ++ updatesOf pre)
        = shown (endedIndices (before ++ updatesOf pre)) blocks

theorem yieldStreamEvent_finalBlocks (state : StreamAssemblyState) {event : NormalizedEvent}
    (h : event.isTerminal = true) : ∃ last, (yieldStreamEvent state event).1 = some last ∧
      last.finalBlocks = some state.blocks ∧ updatesOf [last] = [] := by
  cases event with
  | completed stopReason => exact ⟨_, rfl, rfl, rfl⟩
  | failed message => exact ⟨_, rfl, rfl, rfl⟩
  | incomplete stopReason message =>
    refine ⟨_, rfl, ?_⟩
    rw [StreamAssemblyState.buildIncompleteEvent]
    split
    · exact ⟨rfl, rfl⟩
    · exact ⟨rfl, rfl⟩
  | _ => simp [NormalizedEvent.isTerminal] at h

theorem ProviderStreamEvent.IsPlain.finalBlocks {event : ProviderStreamEvent} (h : event.IsPlain) :
    event.finalBlocks = none := by
  cases event with
  | streamStart _ _ | update _ => rfl
  | done _ | error _ => exact h.elim

theorem yieldStreamEvent_of_not_terminal (state : StreamAssemblyState) {event : NormalizedEvent}
    (h : event.isTerminal = false) :
    ∀ next ∈ (yieldStreamEvent state event).1, next.finalBlocks = none := by
  have hchange := StreamAssemblyState.yieldStreamEvent_change state h
  generalize yieldStreamEvent state event = assembly at hchange
  intro next hnext
  cases hchange with
  | kept _ hplain _ _ _ _ => exact (hplain next hnext).finalBlocks
  | added _ _ hplain =>
    obtain rfl := Option.some.inj hnext
    exact hplain.finalBlocks
  | finished _ _ _ _ =>
    obtain rfl := Option.some.inj hnext
    rfl

theorem updatesOf_append (stream stream' : List ProviderStreamEvent) :
    updatesOf (stream ++ stream') = updatesOf stream ++ updatesOf stream' :=
  List.filterMap_append

/-- An event that ends no stream, before the rest. -/
theorem Shows.cons {before : List StreamUpdateEvent} {yielded : Option ProviderStreamEvent}
    {stream : List ProviderStreamEvent} (hplain : ∀ next ∈ yielded, next.finalBlocks = none)
    (h : Shows (before ++ updatesOf yielded.toList) stream) :
    Shows before (yielded.toList ++ stream) where
  consistent := by
    rw [updatesOf_append, ← List.append_assoc]
    exact h.consistent
  final := by
    intro pre event post blocks hsplit hfinal
    cases yielded with
    | none => simpa [updatesOf] using h.final pre event post blocks hsplit hfinal
    | some next =>
      cases pre with
      | nil =>
        obtain ⟨rfl, -⟩ := List.cons.inj hsplit
        simp [hplain next rfl] at hfinal
      | cons first pre =>
        obtain ⟨rfl, htail⟩ := List.cons.inj hsplit
        have hrest := h.final pre event post blocks htail hfinal
        rwa [List.append_assoc, ← updatesOf_append] at hrest

/-- **The rest of a stream, from any state the consumer mirrors.** -/
theorem Mirrors.assembleFrom : ∀ (events : List NormalizedEvent) {state : StreamAssemblyState}
    {updates : List StreamUpdateEvent}, Mirrors updates state →
      Shows updates (assembleFrom state events)
  | [], state, updates, h => ⟨by simpa [updatesOf, Tile.assembleFrom] using h.consistent,
      fun pre event post blocks hsplit => by simp [Tile.assembleFrom] at hsplit⟩
  | event :: rest, state, updates, h => by
    rw [Tile.assembleFrom]
    cases hevent : event.isTerminal with
    | false =>
      have hrest := Mirrors.assembleFrom rest (h.yieldStreamEvent hevent)
      exact hrest.cons (yieldStreamEvent_of_not_terminal state hevent)
    | true =>
      obtain ⟨last, hlast, hfinal, hupdates⟩ := yieldStreamEvent_finalBlocks state hevent
      rw [hlast, if_pos rfl, List.append_nil]
      refine ⟨by simpa [hupdates] using h.consistent, fun pre next post blocks hsplit hnext => ?_⟩
      obtain ⟨rfl, rfl, rfl⟩ : pre = [] ∧ last = next ∧ post = [] := by
        cases pre <;> simp_all
      obtain rfl := Option.some.inj (hfinal.symm.trans hnext)
      exact ⟨rfl, by simpa [updatesOf] using h.replayed⟩

/-- Nothing after a terminal event is consumed. -/
theorem assembleFrom_append_terminal {event : NormalizedEvent} (h : event.isTerminal = true)
    (rest : List NormalizedEvent) : ∀ (before : List NormalizedEvent) (state : StreamAssemblyState),
      assembleFrom state (before ++ event :: rest) = assembleFrom state (before ++ [event])
  | [], state => by simp [assembleFrom, h]
  | first :: before, state => by
    simp only [List.cons_append, assembleFrom]
    rw [assembleFrom_append_terminal h rest before]

/-- **Streamed updates replay to the final message.**  Whatever the normalized events are: starts
take the indices `0, 1, …` in order, any other update is about the block that started last, of its
kind and not ended; a terminal event is the last of the stream, nothing after it is consumed, and
its blocks are those a consumer of the updates has, but for the arguments of the tool calls that
never ended. -/
theorem updates_replay_to_message (source : ProviderSource) (events : List NormalizedEvent) :
    (∀ before update, before ++ [update] <+: updatesOf (assembleStream source events) →
      ConsistentUpdate before update) ∧
    (∀ before event after blocks, assembleStream source events = before ++ event :: after →
      event.finalBlocks = some blocks → after = [] ∧
        replayUpdates (updatesOf before) = shown (endedIndices (updatesOf before)) blocks) ∧
    ∀ before event after, events = before ++ event :: after → event.isTerminal = true →
      assembleStream source events = assembleStream source (before ++ [event]) := by
  have hshows : Shows [] (assembleStream source events) :=
    Mirrors.assembleFrom events (Mirrors.initial source)
  refine ⟨hshows.consistent, by simpa using hshows.final, ?_⟩
  rintro before event after rfl hevent
  exact assembleFrom_append_terminal hevent after before _

end Tile
