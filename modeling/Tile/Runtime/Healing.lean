import Mathlib.Data.List.Forall2
import Mathlib.Data.List.Nodup
import Tile.Runtime.Phases

/-!
# Runtime/Healing — the delta a run is finished with is replayable

A conversation is **replayable** when it is made of user messages and completed assistant turns,
each turn followed at once by one result per tool call, in block order.  Wherever a prompt run
stops, its delta is replayable but for the calls left of its last turn, and healing answers exactly
those: `PromptRun.replayable`, as long as no call id is used twice.
-/

namespace Tile

/-! ## Replayable conversations -/

/-- The result answers the call. -/
def ToolResultTurn.Answers (call : ToolCallBlock) (result : ToolResultTurn) : Prop :=
  result.callId = call.callId ∧ result.toolName = call.name

/-- A completed assistant turn, with one result for each of its calls, in order. -/
structure AnsweredTurn where
  turn : AssistantTurn
  results : List ToolResultTurn
  completed : turn.status = .completed
  answered : List.Forall₂ ToolResultTurn.Answers turn.toolCalls results

/-- A completed turn with the results of its calls. -/
inductive Exchange where
  | user (message : UserMessage)
  | turn (answered : AnsweredTurn)

/-- Its items in the history. -/
def Exchange.items : Exchange → List ConversationItem
  | .user message => [.user message]
  | .turn answered => .assistant answered.turn :: answered.results.map .toolResult

def Replayable (items : List ConversationItem) : Prop :=
  ∃ exchanges : List Exchange, items = exchanges.flatMap Exchange.items

theorem toolResultsOf_map_toolResult (results : List ToolResultTurn) :
    toolResultsOf (results.map .toolResult) = results := by
  induction results with
  | nil => rfl
  | cons result rest ih => exact congrArg (result :: ·) ih

theorem toolCallsOf_map_toolResult (results : List ToolResultTurn) :
    toolCallsOf (results.map .toolResult) = [] := by
  induction results with
  | nil => rfl
  | cons result rest ih => exact ih

theorem toolCallsOf_exchange (turn : AssistantTurn) (results : List ToolResultTurn) :
    toolCallsOf (.assistant turn :: results.map .toolResult) = turn.toolCalls :=
  (congrArg (turn.toolCalls ++ ·) (toolCallsOf_map_toolResult results)).trans (List.append_nil _)

theorem toolResultsOf_exchange (turn : AssistantTurn) (results : List ToolResultTurn) :
    toolResultsOf (.assistant turn :: results.map .toolResult) = results :=
  toolResultsOf_map_toolResult results

theorem map_callId_of_answers {calls : List ToolCallBlock} {results : List ToolResultTurn}
    (h : List.Forall₂ ToolResultTurn.Answers calls results) :
    results.map (·.callId) = calls.map (·.callId) := by
  induction h with
  | nil => rfl
  | cons hanswers _ ih => rw [List.map_cons, List.map_cons, hanswers.1, ih]

namespace Replayable

theorem single (exchange : Exchange) : Replayable exchange.items :=
  ⟨[exchange], (List.append_nil _).symm⟩

theorem append {items items' : List ConversationItem} (h : Replayable items)
    (h' : Replayable items') : Replayable (items ++ items') := by
  obtain ⟨exchanges, rfl⟩ := h
  obtain ⟨exchanges', rfl⟩ := h'
  exact ⟨exchanges ++ exchanges', List.flatMap_append.symm⟩

/-- **Calls and results match one to one, in order.** -/
theorem map_callId {items : List ConversationItem} (h : Replayable items) :
    (toolResultsOf items).map (·.callId) = (toolCallsOf items).map (·.callId) := by
  obtain ⟨exchanges, rfl⟩ := h
  induction exchanges with
  | nil => rfl
  | cons exchange rest ih =>
    rw [List.flatMap_cons, toolResultsOf_append, toolCallsOf_append, List.map_append,
      List.map_append, ih]
    congr 1
    cases exchange with
    | user message => rfl
    | turn answered =>
      rw [Exchange.items, toolResultsOf_exchange, toolCallsOf_exchange,
        map_callId_of_answers answered.answered]

/-- A turn that stands after some results stands behind them all. -/
theorem exists_of_results {rest after : List ConversationItem} {turn : AssistantTurn} :
    ∀ {results : List ToolResultTurn} {before : List ConversationItem},
      results.map .toolResult ++ rest = before ++ .assistant turn :: after →
        ∃ before', rest = before' ++ .assistant turn :: after
  | [], before, h => ⟨before, h⟩
  | _ :: _, [], h => by simp at h
  | _ :: _, _ :: _, h => exists_of_results (List.cons.inj h).2

/-- **The results of a turn follow it at once.** -/
theorem followed {items before after : List ConversationItem} {turn : AssistantTurn}
    (h : Replayable items) (hitems : items = before ++ .assistant turn :: after) :
    turn.status = .completed ∧ ∃ results rest, after = results.map .toolResult ++ rest ∧
      List.Forall₂ ToolResultTurn.Answers turn.toolCalls results := by
  obtain ⟨exchanges, rfl⟩ := h
  induction exchanges generalizing before with
  | nil => simp at hitems
  | cons exchange exchanges ih =>
    rw [List.flatMap_cons] at hitems
    cases exchange with
    | user message =>
      cases before with
      | nil => simp [Exchange.items] at hitems
      | cons item before => exact ih (List.cons.inj hitems).2
    | turn answered =>
      cases before with
      | nil =>
        obtain ⟨hturn, rfl⟩ := List.cons.inj hitems
        obtain rfl : answered.turn = turn := by simpa using hturn
        exact ⟨answered.completed, answered.results, _, rfl, answered.answered⟩
      | cons item before =>
        obtain ⟨before', hrest⟩ := exists_of_results (List.cons.inj hitems).2
        exact ih hrest

end Replayable

/-! ## Where a run stops -/

/-- A completed turn whose calls are being answered: some outcomes are there, `calls` are left. -/
structure OpenTurn where
  turn : AssistantTurn
  outcomes : List ToolExecutionOutcome
  calls : List ToolCallBlock

/-- The turn whose calls are being answered in a phase. -/
def Phase.openTurn : Phase → Option OpenTurn
  | .answering _ turn outcomes calls => some ⟨turn, outcomes, calls⟩
  | .running _ turn outcomes call calls => some ⟨turn, outcomes, call :: calls⟩
  | .idle _ | .ready _ | .streaming _ | .done _ | .failed => none

@[simp] theorem Attempt.openTurn_after (attempt : Attempt) (result : TurnResult) :
    (attempt.after result).openTurn = none := by
  rw [Attempt.after]
  split <;> rfl

/-- The delta ends with this turn and the results it has so far. -/
def OpenTurn.Ends (opened : OpenTurn) (delta : List ConversationItem) : Prop :=
  ∃ before done, Replayable before ∧
    delta = before ++ TurnResult.conversationItems ⟨opened.turn, opened.outcomes⟩ ∧
    opened.turn.status = .completed ∧ opened.turn.toolCalls = done ++ opened.calls ∧
    List.Forall₂ ToolResultTurn.Answers done (opened.outcomes.map (·.toolResultTurn))

/-- The delta is replayable, but for the turn that is open in this phase. -/
def Phase.Shapes (phase : Phase) (delta : List ConversationItem) : Prop :=
  match phase.openTurn with
  | none => Replayable delta
  | some opened => opened.Ends delta

theorem OpenTurn.Ends.extend {turn : AssistantTurn} {outcomes : List ToolExecutionOutcome}
    {call : ToolCallBlock} {calls : List ToolCallBlock} {delta : List ConversationItem}
    (h : OpenTurn.Ends ⟨turn, outcomes, call :: calls⟩ delta) {outcome : ToolExecutionOutcome}
    (hanswers : outcome.toolResultTurn.Answers call) :
    OpenTurn.Ends ⟨turn, outcomes ++ [outcome], calls⟩
      (delta ++ [.toolResult outcome.toolResultTurn]) := by
  obtain ⟨before, done, hbefore, rfl, hcompleted, hcalls, hdone⟩ := h
  refine ⟨before, done ++ [call], hbefore, ?_, hcompleted, ?_, ?_⟩
  · simp [TurnResult.conversationItems]
  · rw [hcalls, List.append_assoc, List.singleton_append]
  · rw [List.map_append]
    exact List.rel_append hdone (.cons hanswers .nil)

/-- The results of an open turn answer the first of its calls. -/
theorem OpenTurn.Ends.exists_done {opened : OpenTurn} {delta : List ConversationItem}
    (h : opened.Ends delta) : ∃ before done results, Replayable before ∧
      delta = before ++ .assistant opened.turn :: results.map .toolResult ∧
      opened.turn.status = .completed ∧ opened.turn.toolCalls = done ++ opened.calls ∧
      List.Forall₂ ToolResultTurn.Answers done results ∧
      toolCallsOf delta = (toolCallsOf before ++ done) ++ opened.calls ∧
      (toolResultsOf delta).map (·.callId) = (toolCallsOf before ++ done).map (·.callId) := by
  obtain ⟨before, done, hbefore, hdelta, hcompleted, hcalls, hdone⟩ := h
  have hitems : TurnResult.conversationItems ⟨opened.turn, opened.outcomes⟩
      = .assistant opened.turn :: (opened.outcomes.map (·.toolResultTurn)).map .toolResult := by
    rw [List.map_map]
    rfl
  rw [hitems] at hdelta
  refine ⟨before, done, _, hbefore, hdelta, hcompleted, hcalls, hdone, ?_, ?_⟩
  · rw [hdelta, toolCallsOf_append, toolCallsOf_exchange, hcalls, List.append_assoc]
  · rw [hdelta, toolResultsOf_append, toolResultsOf_exchange, List.map_append, List.map_append,
      hbefore.map_callId, map_callId_of_answers hdone]

/-- A turn without calls left is an exchange. -/
theorem OpenTurn.Ends.replayable {turn : AssistantTurn} {outcomes : List ToolExecutionOutcome}
    {delta : List ConversationItem} (h : OpenTurn.Ends ⟨turn, outcomes, []⟩ delta) :
    Replayable delta := by
  obtain ⟨before, done, results, hbefore, rfl, hcompleted, hcalls, hdone, -, -⟩ := h.exists_done
  obtain rfl : turn.toolCalls = done := hcalls.trans (List.append_nil done)
  exact hbefore.append (.single (.turn ⟨turn, results, hcompleted, hdone⟩))

theorem Phase.Shapes.step {executor : ToolExecutor} {s s' : Phase × Live} {act : Act}
    (h : s.1.Shapes s.2.execution.history.delta) (hstep : Phase.Step executor s act s') :
    s'.1.Shapes s'.2.execution.history.delta := by
  obtain ⟨phase, live⟩ := s
  obtain ⟨phase', live'⟩ := s'
  obtain ⟨hmove, rfl⟩ := hstep
  have hdelta (event : AgentEvent) : ((Act.emit event).apply live).execution.history.delta
      = live.execution.history.delta ++ (conversationItemFor event).toList := rfl
  cases hmove with
  | callProvider => exact h
  | startAgent | startTurn | startMessage | updateMessage | startTool | endAgent =>
    rw [hdelta, conversationItemFor, Option.toList_none, List.append_nil]
    exact h
  | @endTurn attempt turn outcomes =>
    rw [hdelta, conversationItemFor, Option.toList_none, List.append_nil]
    show (attempt.after ⟨turn, outcomes⟩).Shapes _
    rw [Phase.Shapes, Attempt.openTurn_after]
    exact OpenTurn.Ends.replayable h
  | failMessage hfailed =>
    rw [hdelta, conversationItemFor, if_pos hfailed, Option.toList_none, List.append_nil]
    exact h
  | @followUp _ message =>
    exact Replayable.append h (.single (.user message))
  | @completeMessage _ turn hcompleted =>
    rw [hdelta, conversationItemFor, if_neg (not_not.mpr hcompleted)]
    exact ⟨_, [], h, rfl, hcompleted, rfl, .nil⟩
  | endTool houtcome =>
    exact OpenTurn.Ends.extend h (executor.execute_eq_ok houtcome)

/-- The delta is the prompt, then the items of the logged events. -/
def Live.Projects (prompt : String) (live : Live) : Prop :=
  live.execution.history.delta
    = .user { content := prompt } :: live.execution.events.filterMap conversationItemFor

theorem Live.Projects.apply {prompt : String} {live : Live} (h : live.Projects prompt) (act : Act) :
    (act.apply live).Projects prompt := by
  cases act with
  | request _ _ _ => exact h
  | emit event =>
    have hitems : [event].filterMap conversationItemFor = (conversationItemFor event).toList := by
      cases hitem : conversationItemFor event <;> simp [hitem]
    show live.execution.history.delta ++ (conversationItemFor event).toList = _
    rw [show live.execution.history.delta = _ from h, ← hitems, List.cons_append,
      ← List.filterMap_append]
    rfl

/-- What is known of a prompt run wherever it stops. -/
theorem PromptRun.stopped (run : PromptRun) :
    run.executed.2.Projects run.record.prompt ∧
      ∃ phase : Phase, phase.Shapes run.executed.2.execution.history.delta := by
  obtain ⟨executor, phase, acts, hrun⟩ := executePrompt_reaches run.dependencies run.result
    run.script { execution := .init run.record run.committedHistory }
  refine ⟨?_, phase, ?_⟩
  · exact hrun.invariant (P := fun s => s.2.Projects run.record.prompt)
      (fun hstep h => hstep.2 ▸ h.apply _) rfl
  · exact hrun.invariant (P := fun s => s.1.Shapes s.2.execution.history.delta)
      (fun hstep h => Phase.Shapes.step h hstep)
      (Replayable.single (.user { content := run.record.prompt }))

/-! ## Healing -/

section Unanswered

variable {items items' : List ConversationItem}

theorem not_mem_of_nodup_append {calls calls' : List ToolCallBlock}
    (h : ((calls ++ calls').map (·.callId)).Nodup) {call : ToolCallBlock} (hcall : call ∈ calls') :
    call.callId ∉ calls.map (·.callId) := by
  rw [List.map_append, List.nodup_append] at h
  exact fun hmem => h.2.2 _ hmem _ (List.mem_map_of_mem hcall) rfl

/-- The calls without a result are those left, if the results answer the others. -/
theorem unansweredToolCalls_eq {calls calls' : List ToolCallBlock}
    (hcalls : toolCallsOf items = calls ++ calls')
    (hresults : (toolResultsOf items).map (·.callId) = calls.map (·.callId))
    (hids : ((toolCallsOf items).map (·.callId)).Nodup) : unansweredToolCalls items = calls' := by
  rw [hcalls] at hids
  rw [unansweredToolCalls, hcalls, hresults, List.filter_append, List.filter_eq_nil_iff.mpr,
    List.nil_append, List.filter_eq_self.mpr]
  · exact fun call hcall => decide_eq_true (not_mem_of_nodup_append hids hcall)
  · exact fun call hcall => by simpa using ⟨call, hcall, rfl⟩

end Unanswered

theorem RunHistory.heal_delta (history : RunHistory) : history.heal.delta = history.delta ++
    ((unansweredToolCalls history.delta).map incompleteResult).map .toolResult := by
  rw [List.map_map]
  rfl

theorem Replayable.heal {history : RunHistory} (h : Replayable history.delta)
    (hids : ((toolCallsOf history.delta).map (·.callId)).Nodup) :
    history.heal.delta = history.delta := by
  rw [RunHistory.heal_delta, unansweredToolCalls_eq (List.append_nil _).symm h.map_callId hids]
  exact List.append_nil _

theorem answers_incompleteResult (call : ToolCallBlock) : (incompleteResult call).Answers call :=
  ⟨rfl, rfl⟩

/-- **Healing answers the calls that are left**, and makes the delta replayable. -/
theorem OpenTurn.Ends.heal {opened : OpenTurn} {history : RunHistory}
    (h : opened.Ends history.delta)
    (hids : ((toolCallsOf history.delta).map (·.callId)).Nodup) :
    Replayable history.heal.delta := by
  obtain ⟨before, done, results, hbefore, hdelta, hcompleted, hcalls, hdone, hcallsOf,
    hresultsOf⟩ := h.exists_done
  rw [RunHistory.heal_delta, unansweredToolCalls_eq hcallsOf hresultsOf hids, hdelta,
    List.append_assoc, List.cons_append, ← List.map_append]
  refine hbefore.append (.single (.turn ⟨opened.turn, _, hcompleted, ?_⟩))
  rw [hcalls]
  refine List.rel_append hdone (List.forall₂_map_right_iff.mpr (List.forall₂_same.mpr ?_))
  exact fun call _ => answers_incompleteResult call

/-- The delta of a run, before healing. -/
theorem PromptRun.delta_eq (run : PromptRun) : run.delta = run.executed.2.execution.history.delta ++
    ((unansweredToolCalls run.executed.2.execution.history.delta).map incompleteResult).map
      .toolResult :=
  RunHistory.heal_delta _

/-- Healing adds results only. -/
theorem PromptRun.toolCallsOf_delta (run : PromptRun) :
    toolCallsOf run.delta = toolCallsOf run.executed.2.execution.history.delta := by
  rw [run.delta_eq, toolCallsOf_append, toolCallsOf_map_toolResult, List.append_nil]

/-- **The delta of every prompt run is replayable**, whatever stopped it. -/
theorem PromptRun.replayable (run : PromptRun)
    (hids : ((toolCallsOf run.delta).map (·.callId)).Nodup) : Replayable run.delta := by
  rw [run.toolCallsOf_delta] at hids
  obtain ⟨-, phase, hshape⟩ := run.stopped
  rw [Phase.Shapes] at hshape
  split at hshape
  · have hsame : run.delta = run.executed.2.execution.history.delta := hshape.heal hids
    exact hsame ▸ hshape
  · exact hshape.heal hids

/-! ## Whose result answers a call -/

/-- The result is that of the call's emitted outcome, or, if no outcome of it was emitted, the error
result of an interrupted call. -/
def ResultOf (log : List AgentEvent) (call : ToolCallBlock) (result : ToolResultTurn) : Prop :=
  result.Answers call ∧
    (∀ outcome, .toolExecutionEnd outcome ∈ log → outcome.toolResultTurn.callId = call.callId →
      result = outcome.toolResultTurn) ∧
    ((∀ outcome, .toolExecutionEnd outcome ∈ log → outcome.toolResultTurn.callId ≠ call.callId) →
      result = incompleteResult call)

/-- The results before healing are those of the emitted outcomes. -/
theorem PromptRun.mem_toolResultsOf (run : PromptRun) {result : ToolResultTurn} :
    result ∈ toolResultsOf run.executed.2.execution.history.delta ↔
      ∃ outcome, .toolExecutionEnd outcome ∈ run.log ∧ outcome.toolResultTurn = result := by
  rw [show run.executed.2.execution.history.delta = _ from run.stopped.1, toolResultsOf,
    List.mem_filterMap]
  constructor
  · rintro ⟨item, hitem, hresult⟩
    cases item with
    | user _ | assistant _ => cases hresult
    | toolResult turn =>
      obtain rfl := Option.some.inj hresult
      obtain ⟨event, hevent, hitem⟩ :=
        List.mem_filterMap.mp ((List.mem_cons.mp hitem).resolve_left nofun)
      obtain ⟨outcome, rfl, hturn⟩ := conversationItemFor_eq_toolResult.mp hitem
      exact ⟨outcome, hevent, hturn⟩
  · rintro ⟨outcome, houtcome, rfl⟩
    exact ⟨_, List.mem_cons_of_mem _ (List.mem_filterMap.mpr ⟨_, houtcome, rfl⟩), rfl⟩

/-- **Each call has its own result**: that of its outcome, if one was emitted. -/
theorem PromptRun.resultOf (run : PromptRun)
    (hids : ((toolCallsOf run.delta).map (·.callId)).Nodup) {call : ToolCallBlock}
    {result : ToolResultTurn} (hcall : call ∈ toolCallsOf run.delta)
    (hresult : result ∈ toolResultsOf run.delta) (hanswers : result.Answers call) :
    ResultOf run.log call result := by
  have hresults : toolResultsOf run.delta = toolResultsOf run.executed.2.execution.history.delta ++
      (unansweredToolCalls run.executed.2.execution.history.delta).map incompleteResult := by
    rw [run.delta_eq, toolResultsOf_append, toolResultsOf_map_toolResult]
  have hresultIds : ((toolResultsOf run.delta).map (·.callId)).Nodup :=
    (run.replayable hids).map_callId ▸ hids
  refine ⟨hanswers, fun outcome houtcome hsame => ?_, fun hnone => ?_⟩
  · refine List.inj_on_of_nodup_map hresultIds hresult ?_ (hanswers.1.trans hsame.symm)
    rw [hresults]
    exact List.mem_append_left _ (run.mem_toolResultsOf.mpr ⟨outcome, houtcome, rfl⟩)
  · rw [hresults] at hresult
    rcases List.mem_append.mp hresult with hemitted | hhealed
    · obtain ⟨outcome, houtcome, rfl⟩ := run.mem_toolResultsOf.mp hemitted
      exact absurd hanswers.1 (hnone outcome houtcome)
    · obtain ⟨call', hcall', rfl⟩ := List.mem_map.mp hhealed
      have hmem : call' ∈ toolCallsOf run.delta :=
        run.toolCallsOf_delta ▸ (List.mem_filter.mp hcall').1
      rw [List.inj_on_of_nodup_map hids hmem hcall hanswers.1]

/-- **Every turn of a run's delta is completed and answered**: its calls' own results follow it at
once, one per call, in block order. -/
theorem PromptRun.answered (run : PromptRun) (hids : ((toolCallsOf run.delta).map (·.callId)).Nodup)
    {before after : List ConversationItem} {turn : AssistantTurn}
    (hdelta : run.delta = before ++ .assistant turn :: after) :
    turn.status = .completed ∧ ∃ results rest, after = results.map .toolResult ++ rest ∧
      List.Forall₂ (ResultOf run.log) turn.toolCalls results := by
  obtain ⟨hcompleted, results, rest, rfl, hanswers⟩ := (run.replayable hids).followed hdelta
  refine ⟨hcompleted, results, rest, rfl,
    List.forall₂_iff_zip.mpr ⟨hanswers.length_eq, fun {call result} hpair => ?_⟩⟩
  obtain ⟨hcall, hresult⟩ := List.of_mem_zip hpair
  have hexchange : run.delta
      = before ++ ((.assistant turn :: results.map .toolResult) ++ rest) := hdelta
  refine run.resultOf hids ?_ ?_ (List.forall₂_zip hanswers hpair)
  · rw [hexchange, toolCallsOf_append, toolCallsOf_append, toolCallsOf_exchange]
    exact List.mem_append_right _ (List.mem_append_left _ hcall)
  · rw [hexchange, toolResultsOf_append, toolResultsOf_append, toolResultsOf_exchange]
    exact List.mem_append_right _ (List.mem_append_left _ hresult)

end Tile
