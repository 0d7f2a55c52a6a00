import Tile.Providers.OpenAI.Provider
import Tile.Runtime.Conversation
import Tile.Runtime.Sessions
import Tile.Store.Errors

/-!
# Runtime/Requests — what the provider is sent

A run calls the provider only when every call of its last turn is answered, so **each request of a
run pairs calls and outputs up**, also in the middle of it (`requests_pair`).  Where the provider
streams OpenAI responses, **each request is the one before it with the reply to that behind it**
(`requests_append_replies`).
-/

namespace Tile

/-! ## Every request is replayable -/

/-- The requests so far showed replayable deltas. -/
def RequestsReplayable (s : Phase × Live) : Prop :=
  s.1.Shapes s.2.execution.history.delta ∧ ∀ request ∈ s.2.requests, Replayable request.delta

theorem RequestsReplayable.step {executor : ToolExecutor} {s s' : Phase × Live} {act : Act}
    (h : RequestsReplayable s) (hstep : Phase.Step executor s act s') : RequestsReplayable s' := by
  refine ⟨h.1.step hstep, ?_⟩
  obtain ⟨phase, live⟩ := s
  obtain ⟨phase', live'⟩ := s'
  obtain ⟨hmove, rfl⟩ := hstep
  cases hmove with
  | callProvider =>
    intro request hrequest
    rcases List.mem_append.mp hrequest with hrequest | hrequest
    · exact h.2 request hrequest
    · obtain rfl := List.mem_singleton.mp hrequest
      exact h.1
  | startAgent | startTurn | startMessage | updateMessage | failMessage | completeMessage
  | startTool | endTool | endTurn | endAgent | followUp => exact h.2

theorem PromptRun.request_replayable (run : PromptRun) :
    ∀ request ∈ run.executed.2.requests, Replayable request.delta := by
  obtain ⟨executor, phase, acts, hrun⟩ := executePrompt_reaches run.dependencies run.result
    run.script { execution := .init run.record run.committedHistory }
  exact (hrun.invariant (fun hstep h => RequestsReplayable.step h hstep)
    ⟨Replayable.single (.user { content := run.record.prompt }), by simp⟩).2

/-- The shown history of a request is what was committed and its delta. -/
theorem PromptRun.request_history (run : PromptRun) :
    ∀ request ∈ run.executed.2.requests,
      request.history = run.committedHistory.map (·.item) ++ request.delta := by
  intro request hrequest
  obtain ⟨phase, h⟩ := run.agreed
  exact (h.requests request hrequest).1

/-- The history that prompt runs committed is replayable. -/
theorem Trace.replayable [JsonParser] {runOf : String → PromptRun} {events : List StoreEvent}
    {db : Database}
    (h : Trace {} events db) (hruns : FinishesPromptRuns runOf events) {sessionId : String}
    {items : List HistoryItem} (hitems : db.history sessionId = .ok items)
    (hids : ((toolCallsOf (items.map (·.item))).map (·.callId)).Nodup) :
    Replayable (items.map (·.item)) := by
  obtain ⟨runIds, hrunIds⟩ := Trace.holdsDeltas h hruns sessionId
  have hall : items.map (·.item) = runIds.flatMap fun runId => (runOf runId).delta := by
    rw [← map_snd_runItems, ← hrunIds, h.valid_of_empty.ledger_of_history hitems, List.map_map,
      List.map_map]
    rfl
  rw [hall] at hids ⊢
  exact replayable_deltas hids

/-- **Every request of a run pairs calls and outputs up.**  The run is started in a database that
any calls led to, where every run that was finished is a prompt run.  If no call id occurs twice in
the history that was committed before it, each request it makes, in whichever attempt and between
whichever tool batches, serializes into calls and outputs with the same ids in the same order, each
output behind its call. -/
theorem requests_pair [JsonParser] {runOf : String → PromptRun} {events : List StoreEvent}
    {db db' : Database}
    (h : Trace {} events db) (hruns : FinishesPromptRuns runOf events)
    {sessionId runId prompt model provider : String} {ambient : Ambient} {started : StartedRun}
    (hstart : (Call.startRun sessionId runId prompt model provider).run ambient db
      = (.ok (.started started), db'))
    (hids : ((toolCallsOf (started.committedHistory.map (·.item))).map (·.callId)).Nodup)
    {run : PromptRun} (hcommitted : run.committedHistory = started.committedHistory)
    {deserialize : String → Except InvalidReasoning Json} {request : ProviderRequest}
    (hrequest : request ∈ run.executed.2.requests) {inputs : List InputItem}
    (hinputs : serializeHistoryItems deserialize request.history = .ok inputs) :
    functionCallOutputIds inputs = functionCallIds inputs ∧
      ∀ before callId output after,
        inputs = before ++ .functionCallOutput callId output :: after →
          callId ∈ functionCallIds before := by
  obtain ⟨-, -, -, items, hitems, hreply, -⟩ := startRun_eq_ok hstart
  obtain rfl : started.committedHistory = items := by
    have hstarted := congrArg StartedRun.committedHistory (Reply.started.inj hreply)
    exact hstarted
  have hhistory : Replayable request.history := by
    rw [run.request_history request hrequest, hcommitted]
    exact (Trace.replayable h hruns hitems hids).append (run.request_replayable request hrequest)
  have hpairs := serialize_pairs hhistory hinputs
  exact ⟨hpairs.outputs.trans hpairs.calls.symm, hpairs.order⟩

/-- The calls of the interrupted run, off the rows. -/
theorem toolCallsOf_interrupted {items : List HistoryItem}
    (hitems : (play {} interruptedCalls).2.history "s" = .ok items) :
    toolCallsOf (items.map (·.item)) ≠ [] ∧
      ((toolCallsOf (items.map (·.item))).map (·.callId)).Nodup := by
  have hv := Trace.valid_of_empty (trace_play interruptedCalls {})
  rw [(hv.history_eq_ok.mp hitems).2, hv.stored_items]
  decide +kernel

/-- A run that calls a tool it does not have, and answers in its second turn. -/
def unknownToolRun (committed : List HistoryItem) : PromptRun := { toolRun with
  committedHistory := committed
  dependencies := { instructions := "", toolExecutor := ⟨id, []⟩ } }

/-- Such a run, behind one that was interrupted between two tool calls. -/
theorem requests_pair_unknownTool : ∃ committed,
    (unknownToolRun committed).executed.2.requests.length = 2 ∧
      toolCallsOf (committed.map (·.item)) ≠ [] ∧
      ∀ request ∈ (unknownToolRun committed).executed.2.requests, ∀ deserialize inputs,
        serializeHistoryItems deserialize request.history = .ok inputs →
          functionCallOutputIds inputs = functionCallIds inputs := by
  have htrace := trace_play interruptedCalls {}
  obtain ⟨started, hreply⟩ := (Trace.valid_of_empty htrace).startRun_replies
    (htrace.legible (by decide +kernel)) ⟨4, fun _ => "h", []⟩ "again" "model" "provider"
    (show Database.HasSession _ "s" from by decide +kernel) (by decide +kernel)
    (show ¬ Database.HasRun _ "r2" from by decide +kernel)
  obtain ⟨-, -, -, items, hitems, hstarted, -⟩ := startRun_eq_ok (Prod.ext hreply rfl)
  obtain rfl : started.committedHistory = items :=
    congrArg StartedRun.committedHistory (Reply.started.inj hstarted)
  obtain ⟨hcalls, hids⟩ := toolCallsOf_interrupted hitems
  refine ⟨started.committedHistory, rfl, hcalls,
    fun request hrequest deserialize inputs hinputs => ?_⟩
  exact (requests_pair htrace finishesPromptRuns_interrupted (Prod.ext hreply rfl) hids rfl hrequest
    hinputs).1

/-! ## A request and the next -/

section Replies

variable {executor : ToolExecutor} {requests : List ProviderRequest}

/-- These requests were made. -/
abbrev Requested (requests : List ProviderRequest) (live : Live) : Prop := live.requests = requests

theorem emit_requested (event : AgentEvent) :
    Effect.Spec (Requested requests) (emit event) (fun _ => Requested requests)
      (fun _ => Requested requests) :=
  Effect.Spec.modify fun _ h => h

theorem lift_requested {α : Type} (f : Live → Except Interrupt α) :
    Effect.Spec (Requested requests) (Effect.lift f)
      (fun a live => (∃ live', f live' = .ok a) ∧ Requested requests live)
      (fun _ => Requested requests) := by
  refine Effect.Spec.intro (fun live a live' h hlift => ?_) fun live e live' h hlift => ?_
  · obtain ⟨ha, rfl⟩ := Prod.mk.inj hlift
    exact ⟨⟨live, ha⟩, h⟩
  · obtain ⟨-, rfl⟩ := Prod.mk.inj hlift
    exact h

/-- The outcomes answer the calls, in order. -/
def Answered (calls : List ToolCallBlock) (outcomes : List ToolExecutionOutcome) : Prop :=
  List.Forall₂ ToolResultTurn.Answers calls (outcomes.map (·.toolResultTurn))

theorem executeTools_requested : ∀ (calls : List ToolCallBlock) (answers : List ToolAnswer),
    Effect.Spec (Requested requests) (executeTools executor calls answers)
      (fun outcomes live => Answered calls outcomes ∧ Requested requests live)
      (fun _ => Requested requests)
  | [], _ => Effect.Spec.pure fun _ h => ⟨.nil, h⟩
  | call :: calls, answers => by
    refine Effect.Spec.bind (Q := fun outcome live =>
      outcome.toolResultTurn.Answers call ∧ Requested requests live) ?_ fun outcome =>
        Effect.Spec.assume fun hanswers => (executeTools_requested calls answers.tail).bind
          fun outcomes => Effect.Spec.pure fun _ h => ⟨.cons hanswers h.1, h.2⟩
    exact (emit_requested _).bind fun _ => (lift_requested _).bind fun outcome =>
      Effect.Spec.assume fun ⟨_, houtcome⟩ => (emit_requested _).bind fun _ =>
        Effect.Spec.pure fun _ h => ⟨executor.execute_eq_ok houtcome, h⟩

/-- The turn of a done event, with an outcome for each of its calls. -/
structure TurnResult.Completes (result : TurnResult) (event : StreamDoneEvent) : Prop where
  turn : result.assistantTurn = .fromStreamDone event
  answered : Answered result.assistantTurn.toolCalls result.toolExecutions

theorem handleStreamDoneEvent_requested (answers : List ToolAnswer) (event : StreamDoneEvent) :
    Effect.Spec (Requested requests) (handleStreamDoneEvent executor answers event)
      (fun result live => result.Completes event ∧ Requested requests live)
      (fun _ => Requested requests) :=
  (emit_requested _).bind fun _ => (executeTools_requested _ _).bind fun _ =>
    Effect.Spec.assume fun hanswered => (emit_requested _).bind fun _ =>
      Effect.Spec.pure fun _ h => ⟨⟨rfl, hanswered⟩, h⟩

/-- A stream that ends well: the turn is completed, and no request is made. -/
theorem consumeStream_requested (script : TurnScript) (event : StreamDoneEvent) :
    ∀ updates : List StreamUpdateEvent,
      Effect.Spec (Requested requests)
        (consumeStream executor script (updates.map .update ++ [.done event]))
        (fun result live => (∃ turn, result = some turn ∧ turn.Completes event) ∧
          Requested requests live)
        (fun _ => Requested requests)
  | [] => by
    refine Effect.Spec.bind (Q := fun result live =>
      (∃ turn, result = some turn ∧ turn.Completes event) ∧ Requested requests live) ?_
        fun result => Effect.Spec.assume ?_
    · exact (handleStreamDoneEvent_requested script.tools event).bind fun turn =>
        Effect.Spec.pure fun _ h => ⟨⟨turn, rfl, h.1⟩, h.2⟩
    · rintro ⟨turn, rfl, hturn⟩
      exact Effect.Spec.pure fun _ h => ⟨⟨turn, rfl, hturn⟩, h⟩
  | update :: updates => by
    refine Effect.Spec.bind (Q := fun result live => result = none ∧ Requested requests live)
      ((emit_requested _).bind fun _ => Effect.Spec.pure fun _ h => ⟨rfl, h⟩) fun result =>
        Effect.Spec.assume ?_
    rintro rfl
    exact consumeStream_requested script event updates

theorem aclosing_requested {α : Type} {closing : Except Interrupt Unit} {body : AgentRun α}
    {P : Live → Prop} {Q : α → Prop}
    (h : Effect.Spec P body (fun a live => Q a ∧ Requested requests live)
      (fun _ => Requested requests)) :
    Effect.Spec P (aclosing closing body) (fun a live => Q a ∧ Requested requests live)
      (fun _ => Requested requests) := by
  intro live hP
  rw [aclosing]
  rcases hbody : body live with ⟨interrupt | a, live'⟩
  · have hstopped := h.error hP hbody
    cases interrupt with
    | pending => exact hstopped
    | raised _ | cancelled => cases closing <;> exact hstopped
  · have hok := h.ok hP hbody
    cases closing with
    | ok _ => exact hok
    | error _ => exact hok.2

variable {loads : String → Option Json} {dumps : Json → String} {model : String}

/-- The script streams this response, with any other events of the SDK among its own. -/
def StreamedResponse.Scripts (loads : String → Option Json) (dumps : Json → String)
    (model : String) (response : StreamedResponse) (script : TurnScript) : Prop :=
  ∃ events : List ResponseStreamEvent, events.filter (!·.isIgnored) = response.events ∧
    script.events = openAIStream loads dumps model events

/-- One turn makes one request, and a response makes the turn. -/
theorem runProviderTurn_requested {response : StreamedResponse} {script : TurnScript}
    (h : response.Scripts loads dumps model script) (instructions : String)
    (history : List ConversationItem) :
    Effect.Spec (Requested requests) (runProviderTurn executor instructions history script)
      (fun result live => result.Completes (response.doneEvent loads dumps model) ∧
        ∃ request : ProviderRequest, request.history = history ∧
          Requested (requests ++ [request]) live)
      (fun _ live => ∃ request : ProviderRequest, request.history = history ∧
        Requested (requests ++ [request]) live) := by
  obtain ⟨events, hevents, hscript⟩ := h
  refine Effect.Spec.bind (Q := fun _ live => ∃ request : ProviderRequest,
    request.history = history ∧ Requested (requests ++ [request]) live)
    (Effect.Spec.modify fun live hlive => ⟨_, rfl, congrArg (· ++ _) hlive⟩) fun _ =>
      Effect.Spec.exists fun request => Effect.Spec.assume fun hrequest => ?_
  refine Effect.Spec.weaken (Q := fun result live =>
    result.Completes (response.doneEvent loads dumps model) ∧
      Requested (requests ++ [request]) live) (E := fun _ => Requested (requests ++ [request])) ?_
    (fun _ => id) (fun _ _ h => ⟨h.1, request, hrequest, h.2⟩) fun _ _ h => ⟨request, hrequest, h⟩
  refine (lift_requested _).bind fun _ => Effect.Spec.assume fun _ =>
    (aclosing_requested (Q := fun result => ∃ turn, result = some turn ∧
      turn.Completes (response.doneEvent loads dumps model)) ?_).bind fun result =>
        Effect.Spec.assume ?_
  · rw [hscript, openAIStream_response model hevents]
    refine Effect.Spec.bind (Q := fun result live => result = none ∧
      Requested (requests ++ [request]) live) ((emit_requested _).bind fun _ =>
        (emit_requested _).bind fun _ => Effect.Spec.pure fun _ h => ⟨rfl, h⟩) fun result =>
          Effect.Spec.assume ?_
    rintro rfl
    exact consumeStream_requested script _ _
  · rintro ⟨turn, rfl, hturn⟩
    exact Effect.Spec.pure fun _ h => ⟨hturn, h⟩

/-- The requests of a loop over these responses: each is the one before it, followed by the turn of
the response to that and by one result for each of its calls. -/
inductive Replied (loads : String → Option Json) (dumps : Json → String) (model : String) :
    List ConversationItem → List StreamedResponse → List ProviderRequest → Prop where
  | none {history : List ConversationItem} {responses : List StreamedResponse} :
      Replied loads dumps model history responses []
  | last {history : List ConversationItem} {responses : List StreamedResponse}
      {request : ProviderRequest} : request.history = history →
      Replied loads dumps model history responses [request]
  | next {history : List ConversationItem} {response : StreamedResponse}
      {responses : List StreamedResponse} {request : ProviderRequest}
      {requests : List ProviderRequest} {results : List ToolResultTurn} :
      request.history = history →
      List.Forall₂ ToolResultTurn.Answers (response.turn loads dumps model).toolCalls results →
      Replied loads dumps model
        (history ++ .assistant (response.turn loads dumps model) :: results.map .toolResult)
        responses requests →
      Replied loads dumps model history (response :: responses) (request :: requests)

theorem runAgentLoop_replied (instructions : String) {responses : List StreamedResponse}
    {scripts : List TurnScript}
    (h : List.Forall₂ (StreamedResponse.Scripts loads dumps model) responses scripts)
    (history : List ConversationItem) (executions : List ToolExecutionOutcome)
    (requests : List ProviderRequest) :
    Effect.Spec (Requested requests) (runAgentLoop executor instructions scripts history executions)
      (fun _ live => ∃ more, Requested (requests ++ more) live ∧
        Replied loads dumps model history responses more)
      (fun _ live => ∃ more, Requested (requests ++ more) live ∧
        Replied loads dumps model history responses more) := by
  induction h generalizing history executions requests with
  | nil => exact Effect.Spec.raise fun _ h => ⟨[], by rwa [List.append_nil], .none⟩
  | @cons response script responses scripts hscript hscripts ih =>
    have hturn : Effect.Spec (Requested requests)
        (runProviderTurn executor instructions history script)
        (fun result live => result.Completes (response.doneEvent loads dumps model) ∧
          ∃ request : ProviderRequest, request.history = history ∧
            Requested (requests ++ [request]) live)
        (fun _ live => ∃ more, Requested (requests ++ more) live ∧
          Replied loads dumps model history (response :: responses) more) :=
      (runProviderTurn_requested hscript instructions history).weaken (fun _ => id)
        (fun _ _ h => h) fun _ _ ⟨request, hrequest, h⟩ => ⟨[request], h, .last hrequest⟩
    refine hturn.bind fun result => Effect.Spec.assume fun hcompletes =>
      Effect.Spec.exists fun request => Effect.Spec.assume fun hrequest => ?_
    have hitems : result.conversationItems = .assistant (response.turn loads dumps model) ::
        (result.toolExecutions.map (·.toolResultTurn)).map .toolResult := by
      rw [TurnResult.conversationItems, hcompletes.turn, List.map_map]
      rfl
    have hanswered := hcompletes.answered
    rw [hcompletes.turn] at hanswered
    split
    · refine (ih (history ++ result.conversationItems) (executions ++ result.toolExecutions)
        (requests ++ [request])).weaken (fun _ => id) ?_ ?_ <;>
      · rintro _ live ⟨more, hlive, hmore⟩
        refine ⟨request :: more, ?_, .next hrequest hanswered (hitems ▸ hmore)⟩
        rwa [List.append_assoc, List.singleton_append] at hlive
    · exact Effect.Spec.pure fun _ h => ⟨[request], h, .last hrequest⟩

/-- What two requests of such a loop, one after the other, have to do with each other. -/
theorem Replied.next_of_getElem? {deserialize : String → Except InvalidReasoning Json}
    {history : List ConversationItem} {responses : List StreamedResponse}
    {requests : List ProviderRequest} (h : Replied loads dumps model history responses requests)
    (hsound : ∀ response ∈ responses, response.Sound deserialize dumps) {sent : List InputItem}
    (hsent : serializeHistoryItems deserialize history = .ok sent) {i : Nat}
    {request next : ProviderRequest} (hrequest : requests[i]? = some request)
    (hnext : requests[i + 1]? = some next) :
    ∃ (response : StreamedResponse) (results : List ToolResultTurn) (sent : List InputItem),
      responses[i]? = some response ∧
      serializeHistoryItems deserialize request.history = .ok sent ∧
      results.map (·.callId) = response.callIds ∧
      serializeHistoryItems deserialize next.history
        = .ok (sent ++ (response.replayed loads ++ results.map serializeToolResultTurn)) := by
  induction h generalizing i sent with
  | none => simp at hrequest
  | last hhistory => simp at hnext
  | @next history response responses first requests results hhistory hanswers hrest ih =>
    obtain ⟨hresponse, hresponses⟩ := List.forall_mem_cons.mp hsound
    have hreply := serializeHistoryItems_reply loads hresponse model hsent results
    cases i with
    | succ i => exact ih hresponses hreply hrequest hnext
    | zero =>
      obtain rfl : first = request := by simpa using hrequest
      refine ⟨response, results, sent, rfl, hhistory ▸ hsent, ?_, ?_⟩
      · rw [map_callId_of_answers hanswers, toolCalls_streamed]
      · have hhead : next.history = history ++
            .assistant (response.turn loads dumps model) :: results.map .toolResult := by
          cases hrest with
          | none => simp at hnext
          | last hlast =>
            obtain rfl := Option.some.inj hnext
            exact hlast
          | next hlast _ _ =>
            obtain rfl := Option.some.inj hnext
            exact hlast
        rw [hhead, hreply]

theorem Replied.history_of_head? {history : List ConversationItem}
    {responses : List StreamedResponse} {requests : List ProviderRequest}
    (h : Replied loads dumps model history responses requests) {request : ProviderRequest}
    (hrequest : requests.head? = some request) : request.history = history := by
  cases h with
  | none => cases hrequest
  | last hhistory =>
    obtain rfl := Option.some.inj hrequest
    exact hhistory
  | next hhistory _ _ =>
    obtain rfl := Option.some.inj hrequest
    exact hhistory

theorem runAgent_replied (instructions : String) {responses : List StreamedResponse}
    {scripts : List TurnScript}
    (h : List.Forall₂ (StreamedResponse.Scripts loads dumps model) responses scripts)
    (live : Live) :
    ∃ requests,
      (runAgent executor instructions scripts live).2.requests = live.requests ++ requests ∧
        Replied loads dumps model live.execution.history.working responses requests := by
  have hspec : Effect.Spec (· = live) (runAgent executor instructions scripts)
      (fun _ live' => ∃ more, Requested (live.requests ++ more) live' ∧
        Replied loads dumps model live.execution.history.working responses more)
      (fun _ live' => ∃ more, Requested (live.requests ++ more) live' ∧
        Replied loads dumps model live.execution.history.working responses more) := by
    refine Effect.Spec.bind (Q := fun _ live' => live' = live.emit .agentStart)
      (Effect.Spec.modify fun _ h => congrArg _ h) fun _ => Effect.Spec.bind
        (Q := fun history live' => history = live.execution.history.working ∧
          Requested live.requests live') (Effect.Spec.gets ?_) fun history =>
            Effect.Spec.assume ?_
    · rintro _ rfl
      exact ⟨List.append_nil _, rfl⟩
    · rintro rfl
      exact (runAgentLoop_replied instructions h _ [] live.requests).bind fun _ =>
        Effect.Spec.bind (Effect.Spec.modify (f := Live.emit .agentEnd) fun _ h => h) fun _ =>
          Effect.Spec.pure fun _ h => h
  rcases hrun : runAgent executor instructions scripts live with ⟨interrupt | result, live'⟩
  · exact hspec.error rfl hrun
  · exact hspec.ok rfl hrun

/-- **A request is the one before it, with the reply to that behind it.**  An agent invocation
streams these responses, each with any other events of the SDK among its own, and runs any tools
with any results, until it ends or is stopped.  Its first request shows the working history; the
next one of any request serializes into what that one serialized into, followed by the output items
of the response to it, as they were sent, and by one output for each of its calls, in order. -/
theorem requests_append_replies {deserialize : String → Except InvalidReasoning Json}
    {responses : List StreamedResponse} {scripts : List TurnScript}
    (hscripts : List.Forall₂ (StreamedResponse.Scripts loads dumps model) responses scripts)
    (hsound : ∀ response ∈ responses, response.Sound deserialize dumps)
    (executor : ToolExecutor) (instructions : String) (live : Live) {shown : List InputItem}
    (hshown : serializeHistoryItems deserialize live.execution.history.working = .ok shown) :
    ∃ requests,
      (runAgent executor instructions scripts live).2.requests = live.requests ++ requests ∧
      (∀ request, requests.head? = some request →
        request.history = live.execution.history.working) ∧
      ∀ i request next, requests[i]? = some request → requests[i + 1]? = some next →
        ∃ (response : StreamedResponse) (results : List ToolResultTurn) (sent : List InputItem),
          responses[i]? = some response ∧
          serializeHistoryItems deserialize request.history = .ok sent ∧
          results.map (·.callId) = response.callIds ∧
          serializeHistoryItems deserialize next.history
            = .ok (sent ++ (response.replayed loads ++ results.map serializeToolResultTurn)) := by
  obtain ⟨requests, hrequests, hreplied⟩ := runAgent_replied instructions hscripts live
  exact ⟨requests, hrequests, fun request => hreplied.history_of_head?,
    fun i request next => hreplied.next_of_getElem? hsound hshown⟩

end Replies

/-! ## A listing -/

/-- The model thinks and lists a directory and, in a second response, answers. -/
def listingResponses : List StreamedResponse := [
  { responseId := "resp_1"
    items := [
      .reasoning {
        added := ⟨"rs_1", [], .null⟩
        deltas := [(true, "Look "), (true, "first.")]
        done := ⟨"rs_1", ["Look first."], .obj [("id", .str "rs_1")]⟩ },
      .functionCall {
        added := { id := some "fc_1", callId := "call_1", name := "ls", arguments := "" }
        arguments := [(false, "\x7b\x7d"), (true, "\x7b\x7d")]
        done := { id := some "fc_1", callId := "call_1", name := "ls", arguments := "\x7b\x7d" } }]
    output := []
    unfiltered := by decide },
  { responseId := "resp_2"
    items := [.message {
      added := { id := "msg_1", content := [] }
      deltas := [(false, "One file.")]
      done := {
        id := "msg_1", content := [.outputText "One file."], phase := some "final_answer" } }]
    output := []
    unfiltered := by decide }]

def listingLoads (text : String) : Option Json := if text = "\x7b\x7d" then some (.obj []) else none

def listingDumps : Json → String
  | .obj [("id", .str id)] => s!"\x7b\"id\": \"{id}\"\x7d"
  | _ => "null"

def listingDeserialize (signature : String) : Except InvalidReasoning Json :=
  if signature = "\x7b\"id\": \"rs_1\"\x7d" then .ok (.obj [("id", .str "rs_1")])
  else .error ⟨signature⟩

/-- The SDK also tells that a response is in progress. -/
def listingScript (response : StreamedResponse) : TurnScript where
  events := openAIStream listingLoads listingDumps "model"
    (.other "response.in_progress" :: response.events)
  tools := [.returns { content := [.text "a.txt"] }]

theorem sound_listing : ∀ response ∈ listingResponses,
    response.Sound listingDeserialize listingDumps := by
  intro response hresponse
  simp only [listingResponses, List.mem_cons, List.not_mem_nil, or_false] at hresponse
  rcases hresponse with rfl | rfl
  · refine ⟨fun item hitem => ?_, fun item hitem => ?_, fun item hitem => ?_⟩
    · obtain rfl : item = ⟨"rs_1", ["Look first."], .obj [("id", .str "rs_1")]⟩ := by
        simpa [StreamedItem.done] using hitem
      decide +kernel
    · obtain rfl : item = ⟨"rs_1", ["Look first."], .obj [("id", .str "rs_1")]⟩ := by
        simpa [StreamedItem.done] using hitem
      decide +kernel
    · simp [StreamedItem.done] at hitem
  · refine ⟨fun item hitem => ?_, fun item hitem => ?_, fun item hitem => ?_⟩
    · simp [StreamedItem.done] at hitem
    · simp [StreamedItem.done] at hitem
    · simp only [StreamedItem.done, List.map_cons, List.map_nil, List.mem_singleton,
        ResponseOutputItem.message.injEq] at hitem
      simp [hitem]

theorem requests_append_replies_listing : ∃ requests : List ProviderRequest,
    requests.length = 2 ∧ ∀ i request next, requests[i]? = some request →
      requests[i + 1]? = some next →
        ∃ (response : StreamedResponse) (results : List ToolResultTurn) (sent : List InputItem),
          listingResponses[i]? = some response ∧
          serializeHistoryItems listingDeserialize request.history = .ok sent ∧
          results.map (·.callId) = response.callIds ∧
          serializeHistoryItems listingDeserialize next.history
            = .ok (sent ++
              (response.replayed listingLoads ++ results.map serializeToolResultTurn)) := by
  have hscripts : List.Forall₂ (StreamedResponse.Scripts listingLoads listingDumps "model")
      listingResponses (listingResponses.map listingScript) :=
    List.forall₂_map_right_iff.mpr (List.forall₂_same.mpr fun response _ =>
      ⟨.other "response.in_progress" :: response.events, response.filter_events, rfl⟩)
  obtain ⟨requests, hrequests, -, hreplies⟩ := requests_append_replies hscripts sound_listing
    toolRun.dependencies.toolExecutor "" { execution := .init toolRun.record [] } rfl
  refine ⟨requests, ?_, hreplies⟩
  have hlength := congrArg List.length hrequests
  have hall : (runAgent toolRun.dependencies.toolExecutor "" (listingResponses.map listingScript)
      { execution := .init toolRun.record [] }).2.requests.length = 2 := by decide +kernel
  rw [hall, List.nil_append] at hlength
  exact hlength.symm

end Tile
