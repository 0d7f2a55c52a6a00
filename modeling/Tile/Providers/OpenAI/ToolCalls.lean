import Tile.Agent
import Tile.Providers.OpenAI.StreamAssembler

/-!
# Providers/OpenAI/ToolCalls — which tool calls a stream lets the agent run

The terminal event carries every block accumulated so far, finished or not, and the agent runs the
tool calls among them.  A call is finished by its `toolCallDone`, while its block is active; so
**a stream lets only finished calls run iff, when it ends well, every call in it is finished before
the next block is added and before the stream ends** (`onlyFinishedCalls_iff`).
-/

namespace Tile

/-! ## Calls in a sequence of normalized events -/

/-- The event adds a block, which becomes the active one. -/
def NormalizedEvent.addsBlock : NormalizedEvent → Bool
  | .reasoningAdded _ | .messageAdded _ _ | .toolCallAdded _ _ _ _ => true
  | _ => false

def NormalizedEvent.addsCall : NormalizedEvent → Bool
  | .toolCallAdded _ _ _ _ => true
  | _ => false

def NormalizedEvent.finishesCall : NormalizedEvent → Bool
  | .toolCallDone _ _ _ _ => true
  | _ => false

/-- The event completes its stream with a `StreamDoneEvent`. -/
def NormalizedEvent.succeeds : NormalizedEvent → Bool
  | .completed _ => true
  | .incomplete stopReason _ => stopReason ≠ .error
  | _ => false

/-- The first terminal event is a successful one. -/
def endsWell (events : List NormalizedEvent) : Bool :=
  (events.find? (·.isTerminal)).any (·.succeeds)

/-- Up to the first terminal event, every call is finished before another block is added and before
the stream ends; `pending` says that a call is unfinished. -/
def callsFinish : (pending : Bool) → List NormalizedEvent → Bool
  | _, [] => true
  | pending, event :: rest =>
    if event.isTerminal then !pending
    else if event.addsBlock then !pending && callsFinish event.addsCall rest
    else callsFinish (pending && !event.finishesCall) rest

/-! ## What one event does to the blocks -/

/-- The active block is a tool call. -/
def StreamAssemblyState.pending (state : StreamAssemblyState) : Bool :=
  state.activeBlock.any fun (block, _) => block.toolCall?.isSome

/-- An event of the stream that neither finishes a call nor ends the stream. -/
def ProviderStreamEvent.IsPlain : ProviderStreamEvent → Prop
  | .streamStart _ _ => True
  | .update (.toolCallEnd _ _) | .done _ | .error _ => False
  | .update _ => True

/-- What a non-terminal event yields, and the state it leaves: it is about the active block or about
none, it adds a block, or it finishes the active one. -/
inductive BlockChange (state : StreamAssemblyState) (event : NormalizedEvent) : Assembly → Prop
  | kept {yielded state'} (hadds : event.addsBlock = false)
      (hplain : ∀ streamEvent ∈ yielded, ProviderStreamEvent.IsPlain streamEvent)
      (hactive : state'.activeBlockIndex = state.activeBlockIndex)
      (hblocks : ∀ index, state.activeBlockIndex ≠ some index →
        state'.blocks[index]? = state.blocks[index]?)
      (hlength : state'.blocks.length = state.blocks.length)
      (hpending : state'.pending = (state.pending && !event.finishesCall)) :
      BlockChange state event (yielded, state')
  | added {block started} (hadds : event.addsBlock = true)
      (hcall : block.toolCall?.isSome = event.addsCall)
      (hplain : (ProviderStreamEvent.update (started state.blocks.length)).IsPlain) :
      BlockChange state event (state.appendActiveBlock block started)
  | finished {index old block ended} (hadds : event.addsBlock = false)
      (hactive : state.activeBlock = some (old, index))
      (hkind : old.toolCall?.isSome = true → event.finishesCall = true)
      (hended : ∀ i call, ended = .toolCallEnd i call ↔ i = index ∧ block = .toolCall call) :
      BlockChange state event
        (some (.update ended), (state.writeBlock index block).clearActiveBlock)

namespace StreamAssemblyState

variable {state : StreamAssemblyState}

theorem activeBlock_eq_some {block : AssistantBlock} {index : Nat} :
    state.activeBlock = some (block, index) ↔
      state.activeBlockIndex = some index ∧ state.blocks[index]? = some block := by
  rw [activeBlock]
  cases state.activeBlockIndex with
  | none => simp
  | some active =>
    simp only [Option.bind_some, Option.map_eq_some_iff, Prod.mk.injEq, Option.some.injEq]
    constructor
    · rintro ⟨_, h, rfl, rfl⟩
      exact ⟨rfl, h⟩
    · rintro ⟨rfl, h⟩
      exact ⟨block, h, rfl, rfl⟩

theorem lt_length_of_activeBlock {block : AssistantBlock} {index : Nat}
    (h : state.activeBlock = some (block, index)) : index < state.blocks.length :=
  (List.getElem?_eq_some_iff.mp (activeBlock_eq_some.mp h).2).1

theorem pending_of_activeBlock {block : AssistantBlock} {index : Nat}
    (h : state.activeBlock = some (block, index)) : state.pending = block.toolCall?.isSome := by
  simp [pending, h]

theorem pending_iff :
    state.pending = true ↔ ∃ call index, state.activeBlock = some (.toolCall call, index) := by
  rw [pending, Option.any_eq_true]
  constructor
  · rintro ⟨⟨block, index⟩, hactive, hcall⟩
    obtain ⟨call, hcall⟩ := Option.isSome_iff_exists.mp hcall
    exact ⟨call, index, AssistantBlock.toolCall?_eq_some.mp hcall ▸ hactive⟩
  · rintro ⟨call, index, hactive⟩
    exact ⟨_, hactive, rfl⟩

/-- Writing the active block leaves it active. -/
theorem activeBlock_writeBlock {old : AssistantBlock} {index : Nat} (block : AssistantBlock)
    (h : state.activeBlock = some (old, index)) :
    (state.writeBlock index block).activeBlock = some (block, index) := by
  refine activeBlock_eq_some.mpr ⟨(activeBlock_eq_some.mp h).1, ?_⟩
  simp [writeBlock, lt_length_of_activeBlock h]

/-- An event that changes nothing about the blocks, and finishes no call. -/
theorem change_ignored {event : NormalizedEvent} {yielded : Option ProviderStreamEvent}
    (hadds : event.addsBlock = false)
    (hplain : ∀ streamEvent ∈ yielded, ProviderStreamEvent.IsPlain streamEvent)
    (hpending : state.pending = true → event.finishesCall = false) :
    BlockChange state event (yielded, state) :=
  .kept hadds hplain rfl (fun _ _ => rfl) rfl (by cases h : state.pending <;> simp_all)

/-- An event that rewrites the active block as one of its kind. -/
theorem change_rewritten {event : NormalizedEvent} {yielded : Option ProviderStreamEvent}
    {old block : AssistantBlock} {index : Nat} (hactive : state.activeBlock = some (old, index))
    (hkind : block.toolCall?.isSome = old.toolCall?.isSome)
    (hadds : event.addsBlock = false) (hfinishes : event.finishesCall = false)
    (hplain : ∀ streamEvent ∈ yielded, ProviderStreamEvent.IsPlain streamEvent) :
    BlockChange state event (yielded, state.writeBlock index block) := by
  refine .kept hadds hplain rfl (fun i hi => ?_) (by simp [writeBlock]) ?_
  · have hne : index ≠ i := fun h => hi (h ▸ (activeBlock_eq_some.mp hactive).1)
    simp [writeBlock, hne]
  · rw [pending_of_activeBlock (activeBlock_writeBlock block hactive),
      pending_of_activeBlock hactive, hkind, hfinishes, Bool.not_false, Bool.and_true]

/-- **What a non-terminal event does.** -/
theorem yieldStreamEvent_change (state : StreamAssemblyState) {event : NormalizedEvent}
    (h : event.isTerminal = false) : BlockChange state event (yieldStreamEvent state event) := by
  cases event with
  | created responseId =>
    exact .kept rfl (by simp [ProviderStreamEvent.IsPlain]) rfl (fun _ _ => rfl) rfl
      (by simp [NormalizedEvent.finishesCall]; rfl)
  | reasoningAdded itemId =>
    simp only [yieldStreamEvent, startReasoningBlock]
    exact .added rfl rfl trivial
  | messageAdded itemId phase =>
    simp only [yieldStreamEvent, startTextBlock]
    exact .added rfl rfl trivial
  | toolCallAdded itemId callId name arguments =>
    simp only [yieldStreamEvent, startToolCallBlock]
    exact .added rfl rfl trivial
  | reasoningDelta delta =>
    simp only [yieldStreamEvent, appendReasoningDelta]
    split
    next block index hactive =>
      exact change_rewritten hactive rfl rfl rfl (by simp [ProviderStreamEvent.IsPlain])
    next => exact change_ignored rfl (by simp) fun _ => rfl
  | messageTextDelta delta =>
    simp only [yieldStreamEvent, appendTextDelta]
    split
    next block index hactive =>
      exact change_rewritten hactive rfl rfl rfl (by simp [ProviderStreamEvent.IsPlain])
    next => exact change_ignored rfl (by simp) fun _ => rfl
  | toolCallArgumentsDelta delta =>
    simp only [yieldStreamEvent, appendToolCallArgumentsDelta]
    split
    next => exact change_ignored rfl (by simp [ProviderStreamEvent.IsPlain]) fun _ => rfl
    next => exact change_ignored rfl (by simp) fun _ => rfl
  | toolCallArgumentsDone arguments =>
    simp only [yieldStreamEvent, replaceToolCallArguments]
    split
    next block index hactive => exact change_rewritten hactive rfl rfl rfl (by simp)
    next => exact change_ignored rfl (by simp) fun _ => rfl
  | reasoningDone itemId summaryText signature =>
    simp only [yieldStreamEvent, finalizeReasoningBlock]
    split
    next block index hactive =>
      exact .finished rfl hactive (by simp [AssistantBlock.toolCall?]) (by simp)
    next => exact change_ignored rfl (by simp) fun _ => rfl
  | messageDone itemId text phase =>
    simp only [yieldStreamEvent, finalizeTextBlock]
    split
    next block index hactive =>
      exact .finished rfl hactive (by simp [AssistantBlock.toolCall?]) (by simp)
    next => exact change_ignored rfl (by simp) fun _ => rfl
  | toolCallDone itemId callId name arguments =>
    simp only [yieldStreamEvent, finalizeToolCallBlock]
    split
    next block index hactive =>
      refine .finished rfl hactive (fun _ => rfl) fun i call => ?_
      simp [eq_comm]
    next hnone =>
      refine change_ignored rfl (by simp) fun hpending => ?_
      obtain ⟨call, index, hactive⟩ := pending_iff.mp hpending
      exact absurd hactive (hnone call index)
  | completed | incomplete | failed => simp [NormalizedEvent.isTerminal] at h

end StreamAssemblyState

/-! ## Finished calls, along a stream -/

/-- The stream so far ends calls at indices of blocks that are no longer active. -/
structure Assembled (before : List ProviderStreamEvent) (state : StreamAssemblyState) : Prop where
  active : ∀ index, state.activeBlockIndex = some index → index < state.blocks.length
  ended : ∀ index call, .update (.toolCallEnd index call) ∈ before →
    index < state.blocks.length ∧ state.activeBlockIndex ≠ some index

/-- Every call but the active one ended in the stream so far. -/
def Settled (before : List ProviderStreamEvent) (state : StreamAssemblyState) : Prop :=
  ∀ index call, state.activeBlockIndex ≠ some index →
    state.blocks[index]? = some (.toolCall call) → .update (.toolCallEnd index call) ∈ before

/-- Every tool-call block of a `StreamDoneEvent` ended earlier in the stream. -/
def DoneCallsEnded (before stream : List ProviderStreamEvent) : Prop :=
  ∀ mid event after, stream = mid ++ .done event :: after → ∀ index call,
    event.blocks[index]? = some (.toolCall call) → .update (.toolCallEnd index call) ∈ before ++ mid

section Step

variable {before : List ProviderStreamEvent} {state : StreamAssemblyState} {event : NormalizedEvent}
  {assembly : Assembly}

theorem ProviderStreamEvent.IsPlain.ne_toolCallEnd {streamEvent : ProviderStreamEvent}
    (h : streamEvent.IsPlain) (index : Nat) (call : ToolCallBlock) :
    .update (.toolCallEnd index call) ≠ streamEvent := by
  rintro rfl
  exact h

theorem ProviderStreamEvent.IsPlain.ne_done {streamEvent : ProviderStreamEvent}
    (h : streamEvent.IsPlain) (event : StreamDoneEvent) : streamEvent ≠ .done event := by
  rintro rfl
  exact h

/-- The calls that ended once an event is yielded. -/
theorem mem_append_toList {yielded : Option ProviderStreamEvent}
    {streamEvent : ProviderStreamEvent} :
    streamEvent ∈ before ++ yielded.toList ↔ streamEvent ∈ before ∨ yielded = some streamEvent := by
  rw [List.mem_append, Option.mem_toList]

theorem Assembled.change (h : Assembled before state) (hchange : BlockChange state event assembly) :
    Assembled (before ++ assembly.1.toList) assembly.2 := by
  cases hchange with
  | kept hadds hplain hactive hblocks hlength hpending =>
    refine ⟨fun index hindex => hlength ▸ h.active index (hactive ▸ hindex), ?_⟩
    intro index call hcall
    rw [hlength, hactive]
    rcases mem_append_toList.mp hcall with hcall | hcall
    · exact h.ended index call hcall
    · exact absurd rfl ((hplain _ hcall).ne_toolCallEnd index call)
  | @added block started hadds hkind hplain =>
    refine ⟨fun index hindex => ?_, fun index call hcall => ?_⟩
    · obtain rfl := Option.some.inj hindex
      simp [StreamAssemblyState.appendActiveBlock]
    · rcases mem_append_toList.mp hcall with hcall | hcall
      · have hlt := (h.ended index call hcall).1
        simp only [StreamAssemblyState.appendActiveBlock, List.length_append, List.length_singleton]
        exact ⟨by omega, fun heq => by have := Option.some.inj heq; omega⟩
      · exact absurd (Option.some.inj hcall).symm (hplain.ne_toolCallEnd index call)
  | @finished i old block ended hadds hactive hkind hended =>
    refine ⟨fun index hindex => (nomatch hindex), fun index call hcall => ⟨?_, nofun⟩⟩
    rw [StreamAssemblyState.clearActiveBlock, StreamAssemblyState.writeBlock, List.length_set]
    rcases mem_append_toList.mp hcall with hcall | hcall
    · exact (h.ended index call hcall).1
    · have heq : ended = .toolCallEnd index call := by simpa using hcall
      rw [((hended index call).mp heq).1]
      exact StreamAssemblyState.lt_length_of_activeBlock hactive

/-- Whether a call is pending after an event. -/
theorem BlockChange.pending (h : BlockChange state event assembly) :
    assembly.2.pending =
      if event.addsBlock then event.addsCall else state.pending && !event.finishesCall := by
  cases h with
  | kept hadds _ _ _ _ hpending => rw [hpending, hadds]; rfl
  | added hadds hkind _ =>
    rw [hadds, if_pos rfl, ← hkind]
    simp [StreamAssemblyState.appendActiveBlock, StreamAssemblyState.pending,
      StreamAssemblyState.activeBlock]
  | finished hadds hactive hkind _ =>
    have hgone : (state.pending && !event.finishesCall) = false := by
      rw [StreamAssemblyState.pending_of_activeBlock hactive]
      cases hcall : AssistantBlock.toolCall? _ with
      | none => rfl
      | some call => simp [hkind (by rw [hcall]; rfl)]
    rw [hadds, if_neg Bool.false_ne_true, hgone]
    rfl

/-- **The calls of the other blocks stay settled**, unless the event leaves a pending one behind. -/
theorem settled_change (h : Assembled before state) (hchange : BlockChange state event assembly) :
    Settled (before ++ assembly.1.toList) assembly.2 ↔
      Settled before state ∧ (event.addsBlock && state.pending) = false := by
  cases hchange with
  | kept hadds hplain hactive hblocks hlength hpending =>
    rw [hadds, Bool.false_and, eq_self_iff_true, and_true]
    refine ⟨fun hs index call hne hget => ?_, fun hs index call hne hget => ?_⟩
    · have hmem := hs index call (hactive ▸ hne) ((hblocks index hne).trans hget)
      exact (mem_append_toList.mp hmem).resolve_right fun hyield =>
        (hplain _ hyield).ne_toolCallEnd index call rfl
    · rw [hactive] at hne
      exact mem_append_toList.mpr (.inl (hs index call hne ((hblocks index hne).symm.trans hget)))
  | @added block started hadds hkind hplain =>
    rw [hadds, Bool.true_and]
    constructor
    · intro hs
      have hold : ∀ index call, state.blocks[index]? = some (.toolCall call) →
          .update (.toolCallEnd index call) ∈ before := by
        intro index call hget
        have hlt := (List.getElem?_eq_some_iff.mp hget).1
        have hmem := hs index call (fun heq => by have := Option.some.inj heq; omega)
          ((List.getElem?_append_left hlt).trans hget)
        exact (mem_append_toList.mp hmem).resolve_right fun hyield =>
          hplain.ne_toolCallEnd index call (Option.some.inj hyield).symm
      refine ⟨fun index call _ hget => hold index call hget, ?_⟩
      refine Bool.eq_false_iff.mpr fun hpending => ?_
      obtain ⟨call, index, hactive⟩ := StreamAssemblyState.pending_iff.mp hpending
      obtain ⟨hindex, hget⟩ := StreamAssemblyState.activeBlock_eq_some.mp hactive
      exact (h.ended index call (hold index call hget)).2 hindex
    · rintro ⟨hs, hpending⟩ index call hne hget
      have hlt : index < state.blocks.length := by
        have hle := (List.getElem?_eq_some_iff.mp hget).1
        simp only [StreamAssemblyState.appendActiveBlock, List.length_append,
          List.length_singleton] at hle
        exact lt_of_le_of_ne (Nat.lt_succ_iff.mp hle) fun heq => hne (congrArg some heq.symm)
      have hget : state.blocks[index]? = some (.toolCall call) :=
        (List.getElem?_append_left hlt).symm.trans hget
      refine mem_append_toList.mpr (.inl (hs index call (fun hindex => ?_) hget))
      have hactive := StreamAssemblyState.activeBlock_eq_some.mpr ⟨hindex, hget⟩
      exact Bool.eq_false_iff.mp hpending (StreamAssemblyState.pending_iff.mpr ⟨_, _, hactive⟩)
  | @finished i old block ended hadds hactive hkind hended =>
    rw [hadds, Bool.false_and, eq_self_iff_true, and_true]
    have hindex := (StreamAssemblyState.activeBlock_eq_some.mp hactive).1
    have hlt := StreamAssemblyState.lt_length_of_activeBlock hactive
    refine ⟨fun hs index call hne hget => ?_, fun hs index call _ hget => ?_⟩
    · have hi : i ≠ index := fun heq => hne (heq ▸ hindex)
      have hmem := hs index call nofun ((List.getElem?_set_ne hi).trans hget)
      refine (mem_append_toList.mp hmem).resolve_right fun hyield => hi ?_
      exact ((hended index call).mp (by simpa using hyield)).1.symm
    · refine mem_append_toList.mpr ?_
      by_cases hi : i = index
      · subst hi
        have hblock : block = .toolCall call :=
          Option.some.inj ((List.getElem?_set_self hlt).symm.trans hget)
        exact .inr (by rw [(hended i call).mpr ⟨rfl, hblock⟩])
      · have hget : state.blocks[index]? = some (.toolCall call) :=
          (List.getElem?_set_ne hi).symm.trans hget
        exact .inl (hs index call (fun heq => hi (Option.some.inj (hindex.symm.trans heq))) hget)

/-- No event of the stream but the last ends it. -/
theorem BlockChange.ne_done (h : BlockChange state event assembly) (done : StreamDoneEvent) :
    assembly.1 ≠ some (.done done) := by
  cases h with
  | kept _ hplain => exact fun heq => (hplain _ heq).ne_done done rfl
  | added _ _ hplain => exact fun heq => hplain.ne_done done (Option.some.inj heq)
  | finished => simp

end Step

theorem doneCallsEnded_nil (before : List ProviderStreamEvent) : DoneCallsEnded before [] :=
  fun mid event after h => by simp at h

/-- An event that ends no stream joins those before. -/
theorem doneCallsEnded_append {before rest : List ProviderStreamEvent}
    {yielded : Option ProviderStreamEvent} (h : ∀ done, yielded ≠ some (.done done)) :
    DoneCallsEnded before (yielded.toList ++ rest) ↔
      DoneCallsEnded (before ++ yielded.toList) rest := by
  cases yielded with
  | none => rw [Option.toList_none, List.nil_append, List.append_nil]
  | some streamEvent =>
    rw [Option.toList_some, List.singleton_append]
    refine ⟨fun hd mid event after heq index call hget => ?_,
      fun hd mid event after heq index call hget => ?_⟩
    · have := hd (streamEvent :: mid) event after (by rw [heq, List.cons_append]) index call hget
      simpa using this
    · cases mid with
      | nil => exact absurd (congrArg some (List.cons.inj heq).1) (h event)
      | cons first mid =>
        obtain ⟨rfl, hrest⟩ := List.cons.inj heq
        simpa using hd mid event after hrest index call hget

/-- A stream that is done with its only event. -/
theorem doneCallsEnded_done {before : List ProviderStreamEvent} {done : StreamDoneEvent} :
    DoneCallsEnded before [.done done] ↔ ∀ index call,
      done.blocks[index]? = some (.toolCall call) → .update (.toolCallEnd index call) ∈ before := by
  refine ⟨fun h => by simpa using h [] done [] rfl, fun h mid event after heq => ?_⟩
  cases mid with
  | nil =>
    obtain rfl : done = event := by simpa using (List.cons.inj heq).1
    simpa using h
  | cons first mid => simp at heq

theorem doneCallsEnded_error {before : List ProviderStreamEvent} {error : StreamErrorEvent} :
    DoneCallsEnded before [.error error] := by
  intro mid event after heq
  cases mid <;> simp at heq

/-- All blocks settled: those that are not active, and the active one. -/
theorem settled_and_not_pending {before : List ProviderStreamEvent} {state : StreamAssemblyState}
    (h : Assembled before state) :
    (Settled before state ∧ state.pending = false) ↔
      ∀ index call, state.blocks[index]? = some (.toolCall call) →
        .update (.toolCallEnd index call) ∈ before := by
  constructor
  · rintro ⟨hs, hpending⟩ index call hget
    refine hs index call (fun hindex => Bool.eq_false_iff.mp hpending ?_) hget
    have hactive := StreamAssemblyState.activeBlock_eq_some.mpr ⟨hindex, hget⟩
    exact StreamAssemblyState.pending_iff.mpr ⟨call, index, hactive⟩
  · refine fun hall =>
      ⟨fun index call _ => hall index call, Bool.eq_false_iff.mpr fun hpending => ?_⟩
    obtain ⟨call, index, hactive⟩ := StreamAssemblyState.pending_iff.mp hpending
    obtain ⟨hindex, hget⟩ := StreamAssemblyState.activeBlock_eq_some.mp hactive
    exact (h.ended index call (hall index call hget)).2 hindex

/-- What a terminal event yields. -/
theorem yieldStreamEvent_terminal (state : StreamAssemblyState) {event : NormalizedEvent}
    (h : event.isTerminal = true) :
    if event.succeeds then
      ∃ done, (yieldStreamEvent state event).1 = some (.done done) ∧ done.blocks = state.blocks
    else ∃ error, (yieldStreamEvent state event).1 = some (.error error) := by
  cases event with
  | completed stopReason => exact ⟨_, rfl, rfl⟩
  | failed message => exact ⟨_, rfl⟩
  | incomplete stopReason message =>
    by_cases herror : stopReason = .error
    · simp [NormalizedEvent.succeeds, yieldStreamEvent, StreamAssemblyState.buildIncompleteEvent,
        herror]
    · simp [NormalizedEvent.succeeds, yieldStreamEvent, StreamAssemblyState.buildIncompleteEvent,
        StreamAssemblyState.buildStreamDoneEvent, herror]
  | _ => simp [NormalizedEvent.isTerminal] at h

/-- **The calls of a stream's end, from any state of its assembly.** -/
theorem assembleFrom_doneCallsEnded (events : List NormalizedEvent) :
    ∀ (before : List ProviderStreamEvent) (state : StreamAssemblyState), Assembled before state →
      (DoneCallsEnded before (assembleFrom state events) ↔
        (endsWell events = true →
          Settled before state ∧ callsFinish state.pending events = true)) := by
  induction events with
  | nil =>
    intro before state _
    exact iff_of_true (doneCallsEnded_nil before) nofun
  | cons event rest ih =>
    intro before state h
    rw [assembleFrom, callsFinish]
    cases hterminal : event.isTerminal with
    | true =>
      have hends : endsWell (event :: rest) = event.succeeds := by simp [endsWell, hterminal]
      have hyield := yieldStreamEvent_terminal state hterminal
      rw [hends, if_pos rfl, if_pos rfl, List.append_nil, Bool.not_eq_true',
        settled_and_not_pending h]
      cases hsucceeds : event.succeeds with
      | true =>
        rw [hsucceeds, if_pos rfl] at hyield
        obtain ⟨done, hdone, hblocks⟩ := hyield
        rw [hdone, Option.toList_some, doneCallsEnded_done, hblocks]
        exact ⟨fun hall _ => hall, fun hall => hall rfl⟩
      | false =>
        rw [hsucceeds, if_neg Bool.false_ne_true] at hyield
        obtain ⟨error, herror⟩ := hyield
        rw [herror, Option.toList_some]
        exact iff_of_true doneCallsEnded_error nofun
    | false =>
      have hends : endsWell (event :: rest) = endsWell rest := by simp [endsWell, hterminal]
      have hchange := state.yieldStreamEvent_change hterminal
      rw [hends, if_neg Bool.false_ne_true, if_neg Bool.false_ne_true,
        doneCallsEnded_append hchange.ne_done, ih _ _ (h.change hchange), settled_change h hchange,
        hchange.pending]
      refine imp_congr_right fun _ => ?_
      cases event.addsBlock <;> simp [and_assoc]

/-! ## The tool calls an agent runs -/

/-- Every tool execution in a log starts a call that ended before, with its final arguments. -/
def Backed (log : List AgentEvent) : Prop :=
  ∀ before callId name arguments after,
    log = before ++ .toolExecutionStart callId name arguments :: after →
      ∃ index call, .messageUpdate (.toolCallEnd index call) ∈ before ∧
        call.callId = callId ∧ call.name = name ∧ call.arguments = arguments

/-- The call ended in the log. -/
def EndedIn (log : List AgentEvent) (call : ToolCallBlock) : Prop :=
  ∃ index, .messageUpdate (.toolCallEnd index call) ∈ log

theorem EndedIn.append {log : List AgentEvent} {call : ToolCallBlock} (h : EndedIn log call)
    (event : AgentEvent) : EndedIn (log ++ [event]) call :=
  let ⟨index, hmem⟩ := h
  ⟨index, List.mem_append_left _ hmem⟩

/-- An event keeps a log backed unless it starts an execution that nothing backs. -/
theorem Backed.append {log : List AgentEvent} {event : AgentEvent} (h : Backed log)
    (hevent : ∀ callId name arguments, event = .toolExecutionStart callId name arguments →
      ∃ call, EndedIn log call ∧
        call.callId = callId ∧ call.name = name ∧ call.arguments = arguments) :
    Backed (log ++ [event]) := by
  intro before callId name arguments after heq
  rcases List.append_eq_append_iff.mp heq with ⟨mid, hbefore, hrest⟩ | ⟨mid, hlog, hrest⟩
  · cases mid with
    | nil =>
      obtain ⟨hstart, -⟩ := List.cons.inj hrest
      obtain ⟨call, ⟨index, hmem⟩, hcall⟩ := hevent callId name arguments hstart
      exact ⟨index, call, by simpa [hbefore] using hmem, hcall⟩
    | cons first mid => simp at hrest
  · cases mid with
    | nil =>
      obtain ⟨hstart, -⟩ := List.cons.inj hrest
      obtain ⟨call, ⟨index, hmem⟩, hcall⟩ := hevent callId name arguments hstart.symm
      exact ⟨index, call, by simpa [hlog] using hmem, hcall⟩
    | cons first mid =>
      obtain ⟨rfl, -⟩ := List.cons.inj hrest
      exact h before callId name arguments mid hlog

/-- The run has logged, since `base`, events with `P`. -/
def Logged (base : List AgentEvent) (P : List AgentEvent → Prop) (live : Live) : Prop :=
  ∃ log, live.execution.events = base ++ log ∧ P log

/-- A backed log, with calls that ended in it. -/
def Ready (calls : List ToolCallBlock) (log : List AgentEvent) : Prop :=
  Backed log ∧ ∀ call ∈ calls, EndedIn log call

/-- A backed log that shows the updates of a stream so far. -/
def Follows (before : List ProviderStreamEvent) (log : List AgentEvent) : Prop :=
  Backed log ∧ ∀ event, .update event ∈ before → .messageUpdate event ∈ log

section Turn

variable {base : List AgentEvent} {P Q : List AgentEvent → Prop}

theorem emit_logged {E : Interrupt → Live → Prop} {event : AgentEvent}
    (h : ∀ log, P log → Q (log ++ [event])) :
    Effect.Spec (Logged base P) (emit event) (fun _ => Logged base Q) E :=
  Effect.Spec.modify fun live ⟨log, hlog, hP⟩ =>
    ⟨log ++ [event], by simp [Live.emit, hlog, List.append_assoc], h log hP⟩

theorem Logged.imp {live : Live} (h : ∀ log, P log → Q log) (hlog : Logged base P live) :
    Logged base Q live :=
  let ⟨log, heq, hP⟩ := hlog
  ⟨log, heq, h log hP⟩

/-- Running a call that ended in the log. -/
theorem executeTool_logged (executor : ToolExecutor) (toolCall : ToolCallBlock)
    (rest : List ToolCallBlock) (answer : ToolAnswer) :
    Effect.Spec (Logged base (Ready (toolCall :: rest))) (executeTool executor toolCall answer)
      (fun _ => Logged base (Ready rest)) (fun _ => Logged base Backed) := by
  refine (emit_logged (Q := Ready rest) ?_).bind fun _ => ?_
  · rintro log ⟨hbacked, hcalls⟩
    have hended := hcalls toolCall List.mem_cons_self
    refine ⟨hbacked.append fun _ _ _ h => ⟨toolCall, hended, by simpa using h⟩,
      fun call hcall => ?_⟩
    exact (hcalls call (List.mem_cons_of_mem _ hcall)).append _
  · refine (Effect.Spec.lift (fun _ _ h => h) fun _ _ => Logged.imp fun _ h => h.1).bind fun _ => ?_
    refine (emit_logged fun log h => ?_).bind fun _ => Effect.Spec.pure fun _ h => h
    exact ⟨h.1.append nofun, fun call hcall => (h.2 call hcall).append _⟩

theorem executeTools_logged (executor : ToolExecutor) (calls : List ToolCallBlock) :
    ∀ answers, Effect.Spec (Logged base (Ready calls)) (executeTools executor calls answers)
      (fun _ => Logged base Backed) (fun _ => Logged base Backed) := by
  induction calls with
  | nil => exact fun answers => Effect.Spec.pure fun _ => Logged.imp fun _ h => h.1
  | cons toolCall rest ih =>
    intro answers
    refine (executeTool_logged executor toolCall rest _).bind fun _ => ?_
    exact (ih _).bind fun _ => Effect.Spec.pure fun _ h => h

/-- **A done stream** runs the calls of its blocks, which all ended. -/
theorem handleStreamDoneEvent_logged (executor : ToolExecutor) (answers : List ToolAnswer)
    {before : List ProviderStreamEvent} {event : StreamDoneEvent}
    (h : ∀ index call, event.blocks[index]? = some (.toolCall call) →
      .update (.toolCallEnd index call) ∈ before) :
    Effect.Spec (Logged base (Follows before)) (handleStreamDoneEvent executor answers event)
      (fun _ => Logged base Backed) (fun _ => Logged base Backed) := by
  refine (emit_logged (Q := Ready (AssistantTurn.fromStreamDone event).toolCalls) ?_).bind
    fun _ => ?_
  · rintro log ⟨hbacked, hupdates⟩
    refine ⟨hbacked.append nofun, fun call hcall => ?_⟩
    obtain ⟨block, hblock, hcall⟩ := List.mem_filterMap.mp hcall
    obtain rfl := AssistantBlock.toolCall?_eq_some.mp hcall
    obtain ⟨index, hget⟩ := List.mem_iff_getElem?.mp hblock
    exact EndedIn.append ⟨index, hupdates _ (h index call hget)⟩ _
  · refine (executeTools_logged executor _ answers).bind fun _ => ?_
    refine (emit_logged (Q := Backed) fun log hlog => hlog.append nofun).bind fun _ => ?_
    exact Effect.Spec.pure fun _ hlog => hlog

theorem Follows.emit {before : List ProviderStreamEvent} {log : List AgentEvent}
    (h : Follows before log) {event : AgentEvent}
    (hevent : ∀ callId name arguments, event ≠ .toolExecutionStart callId name arguments) :
    Follows before (log ++ [event]) :=
  ⟨h.1.append fun callId name arguments heq => absurd heq (hevent callId name arguments),
    fun update hupdate => List.mem_append_left _ (h.2 update hupdate)⟩

/-- One event of a stream: the loop goes on, or the turn is over. -/
theorem handleStreamEvent_logged (executor : ToolExecutor) (answers : List ToolAnswer)
    {before : List ProviderStreamEvent} (event : ProviderStreamEvent)
    (h : ∀ done, event = .done done → ∀ index call,
      done.blocks[index]? = some (.toolCall call) → .update (.toolCallEnd index call) ∈ before) :
    Effect.Spec (Logged base (Follows before)) (handleStreamEvent executor answers event)
      (fun result => Logged base (if result.isSome then Backed else Follows (before ++ [event])))
      (fun _ => Logged base Backed) := by
  cases event with
  | streamStart source responseId =>
    refine (emit_logged fun log hlog => hlog.emit nofun).bind fun _ => ?_
    refine (emit_logged fun log hlog => hlog.emit nofun).bind fun _ => ?_
    refine Effect.Spec.pure fun live => Logged.imp fun log hlog =>
      ⟨hlog.1, fun update hupdate => ?_⟩
    exact hlog.2 update (by simpa using hupdate)
  | update update =>
    refine Effect.Spec.bind
      (emit_logged (Q := Follows (before ++ [ProviderStreamEvent.update update]))
        fun log hlog => ?_) fun _ => Effect.Spec.pure fun _ hlog => hlog
    have hemit : Follows before (log ++ [.messageUpdate update]) := hlog.emit nofun
    refine ⟨hemit.1, fun other hother => ?_⟩
    rcases List.mem_append.mp hother with hother | hother
    · exact hemit.2 other hother
    · obtain rfl : other = update := by simpa using hother
      simp
  | done done =>
    exact (handleStreamDoneEvent_logged executor answers (h done rfl)).bind
      fun _ => Effect.Spec.pure fun _ hlog => hlog
  | error error =>
    refine Effect.Spec.bind (emit_logged (Q := Backed) fun log hlog => ?_) fun _ =>
      Effect.Spec.raise fun _ hlog => hlog
    have hemit : Follows before (log ++ [.messageEnd (.fromStreamError error)]) := hlog.emit nofun
    exact hemit.1

/-- The loop over the rest of a stream. -/
theorem consumeStream_logged (executor : ToolExecutor) (script : TurnScript)
    (events : List ProviderStreamEvent) :
    ∀ before, DoneCallsEnded before events →
      Effect.Spec (Logged base (Follows before)) (consumeStream executor script events)
        (fun _ => Logged base Backed) (fun _ => Logged base Backed) := by
  induction events with
  | nil =>
    intro before _
    refine (Effect.Spec.lift (fun _ _ h => h) fun _ _ => Logged.imp fun _ h => h.1).bind fun _ => ?_
    exact Effect.Spec.pure fun _ => Logged.imp fun _ h => h.1
  | cons event rest ih =>
    intro before h
    refine (handleStreamEvent_logged executor script.tools event fun done hdone => ?_).bind
      fun result => ?_
    · simpa using h [] done rest (by rw [hdone]; rfl)
    · cases result with
      | some turn => exact Effect.Spec.pure fun _ hlog => hlog
      | none =>
        refine ih (before ++ [event]) fun mid done after heq index call hget => ?_
        have hmem := h (event :: mid) done after (by rw [heq]; rfl) index call hget
        simpa using hmem

theorem aclosing_logged {α : Type} {closing : Except Interrupt Unit} {body : AgentRun α}
    (h : Effect.Spec (Logged base P) body (fun _ => Logged base Q) (fun _ => Logged base Q)) :
    Effect.Spec (Logged base P) (aclosing closing body) (fun _ => Logged base Q)
      (fun _ => Logged base Q) := by
  intro live hlive
  have hbody := h live hlive
  rw [aclosing]
  rcases hrun : body live with ⟨result, live'⟩
  rw [hrun] at hbody
  rcases result with (error | cancelled | pending) | value <;> cases closing <;> exact hbody

/-- **One provider turn**: what it logs is backed when the calls of its stream's end all ended. -/
theorem runProviderTurn_logged (executor : ToolExecutor) (instructions : String)
    (history : List ConversationItem) (script : TurnScript)
    (h : DoneCallsEnded [] script.events) :
    Effect.Spec (fun live => live.execution.events = base)
      (runProviderTurn executor instructions history script)
      (fun _ => Logged base Backed) (fun _ => Logged base Backed) := by
  have hrequested : Effect.Spec (fun live => live.execution.events = base)
      (Effect.modify (Live.request history instructions executor.tools))
      (fun _ => Logged base (Follows [])) (fun (_ : Interrupt) => Logged base Backed) :=
    Effect.Spec.modify fun live hlive =>
      ⟨[], by simp [Live.request, hlive], fun _ _ _ _ _ heq => by simp at heq, by simp⟩
  refine hrequested.bind fun _ => ?_
  refine Effect.Spec.bind (Effect.Spec.lift (fun _ _ hlog => hlog)
    fun _ _ => Logged.imp fun _ hlog => hlog.1) fun _ => ?_
  · refine (aclosing_logged (consumeStream_logged executor script script.events [] h)).bind
      fun result => ?_
    cases result with
    | none => exact Effect.Spec.raise fun _ hlog => hlog
    | some turn => exact Effect.Spec.pure fun _ hlog => hlog

/-- What a provider turn logs. -/
def turnLog (executor : ToolExecutor) (instructions : String) (history : List ConversationItem)
    (script : TurnScript) (live : Live) : List AgentEvent :=
  (runProviderTurn executor instructions history script live).2.execution.events.drop
    live.execution.events.length

theorem turnLog_backed (executor : ToolExecutor) (instructions : String)
    (history : List ConversationItem) {script : TurnScript} (live : Live)
    (h : DoneCallsEnded [] script.events) :
    Backed (turnLog executor instructions history script live) := by
  have hspec := runProviderTurn_logged executor instructions history script h live rfl
  rw [turnLog]
  rcases hrun : runProviderTurn executor instructions history script live with ⟨result, live'⟩
  rw [hrun] at hspec
  obtain ⟨log, hlog, hbacked⟩ : Logged live.execution.events Backed live' := by
    cases result <;> exact hspec
  rwa [hlog, List.drop_left]

end Turn

/-! ## Only finished calls run -/

/-- **No tool runs from an unfinished call**: the calls of the stream's end all ended in it, and so
did, before it starts, every tool execution of a turn that is given the stream. -/
structure OnlyFinishedCalls (stream : List ProviderStreamEvent) : Prop where
  done : DoneCallsEnded [] stream
  executed : ∀ executor instructions history script live, script.events = stream →
    Backed (turnLog executor instructions history script live)

end Tile
