import Tile.Library.Run
import Tile.Runtime.Execution

/-!
# Runtime/Phases — an agent run as a transition system

Stripped of its loops, a prompt run is a sequence of acts, each legal in one phase: emit an event,
or call the provider.  `executePrompt_reaches` is the refinement: **wherever execution stops, its
acts so far are a run of this system**.  What holds of every run is then proved act by act.
-/

namespace Tile

/-- What one agent invocation has accumulated: the loop's own history, and its tool executions. -/
structure Attempt where
  history : List ConversationItem
  toolExecutions : List ToolExecutionOutcome

/-- The attempt after a turn. -/
def Attempt.extend (attempt : Attempt) (result : TurnResult) : Attempt where
  history := attempt.history ++ result.conversationItems
  toolExecutions := attempt.toolExecutions ++ result.toolExecutions

/-- Where a prompt run stands. -/
inductive Phase where
  /-- Between attempts; `previous` is the one that ended last, since the last follow-up. -/
  | idle (previous : Option Attempt)
  /-- About to call the provider. -/
  | ready (attempt : Attempt)
  | streaming (attempt : Attempt)
  /-- The turn's message is complete, and the tools run: some calls are done, `calls` are left. -/
  | answering (attempt : Attempt) (turn : AssistantTurn) (outcomes : List ToolExecutionOutcome)
      (calls : List ToolCallBlock)
  /-- As before, and the tool of `call` is running. -/
  | running (attempt : Attempt) (turn : AssistantTurn) (outcomes : List ToolExecutionOutcome)
      (call : ToolCallBlock) (calls : List ToolCallBlock)
  /-- The last turn of the attempt is over. -/
  | done (attempt : Attempt)
  /-- The provider reported a failed turn. -/
  | failed

/-- The phase after a turn. -/
def Attempt.after (attempt : Attempt) (result : TurnResult) : Phase :=
  if result.shouldContinue then .ready (attempt.extend result) else .done (attempt.extend result)

/-- What a run does that others can see. -/
inductive Act where
  | emit (event : AgentEvent)
  | request (history : List ConversationItem) (instructions : String) (tools : List ToolDefinition)

/-- The state after it. -/
def Act.apply : Act → Live → Live
  | .emit event, live => live.emit event
  | .request history instructions tools, live => live.request history instructions tools

/-- The acts that are legal in a phase of a run with this working history. -/
inductive Phase.Moves (executor : ToolExecutor) (working : List ConversationItem) :
    Phase → Act → Phase → Prop where
  | startAgent {previous : Option Attempt} :
      Moves executor working (.idle previous) (.emit .agentStart) (.ready ⟨working, []⟩)
  | callProvider {attempt : Attempt} {instructions : String} {tools : List ToolDefinition} :
      Moves executor working (.ready attempt) (.request attempt.history instructions tools)
        (.streaming attempt)
  | startTurn {attempt : Attempt} :
      Moves executor working (.streaming attempt) (.emit .turnStart) (.streaming attempt)
  | startMessage {attempt : Attempt} {responseId : Option String} :
      Moves executor working (.streaming attempt) (.emit (.messageStart responseId))
        (.streaming attempt)
  | updateMessage {attempt : Attempt} {event : StreamUpdateEvent} :
      Moves executor working (.streaming attempt) (.emit (.messageUpdate event))
        (.streaming attempt)
  | failMessage {attempt : Attempt} {turn : AssistantTurn} : turn.status ≠ .completed →
      Moves executor working (.streaming attempt) (.emit (.messageEnd turn)) .failed
  | completeMessage {attempt : Attempt} {turn : AssistantTurn} : turn.status = .completed →
      Moves executor working (.streaming attempt) (.emit (.messageEnd turn))
        (.answering attempt turn [] turn.toolCalls)
  | startTool {attempt : Attempt} {turn : AssistantTurn} {outcomes : List ToolExecutionOutcome}
      {call : ToolCallBlock} {calls : List ToolCallBlock} :
      Moves executor working (.answering attempt turn outcomes (call :: calls))
        (.emit (.toolExecutionStart call.callId call.name call.arguments))
        (.running attempt turn outcomes call calls)
  | endTool {attempt : Attempt} {turn : AssistantTurn} {outcomes : List ToolExecutionOutcome}
      {call : ToolCallBlock} {calls : List ToolCallBlock} {answer : ToolAnswer}
      {outcome : ToolExecutionOutcome} :
      executor.execute call.callId call.name call.arguments answer = .ok outcome →
      Moves executor working (.running attempt turn outcomes call calls)
        (.emit (.toolExecutionEnd outcome)) (.answering attempt turn (outcomes ++ [outcome]) calls)
  | endTurn {attempt : Attempt} {turn : AssistantTurn} {outcomes : List ToolExecutionOutcome} :
      Moves executor working (.answering attempt turn outcomes []) (.emit (.turnEnd turn outcomes))
        (attempt.after ⟨turn, outcomes⟩)
  | endAgent {attempt : Attempt} :
      Moves executor working (.done attempt) (.emit .agentEnd) (.idle (some attempt))
  | followUp {previous : Option Attempt} {message : UserMessage} :
      Moves executor working (.idle previous) (.emit (.resultFollowUp message)) (.idle none)

/-- One act of a run, from a phase and a state to the next. -/
def Phase.Step (executor : ToolExecutor) (s : Phase × Live) (act : Act) (s' : Phase × Live) :
    Prop :=
  s.1.Moves executor s.2.execution.history.working act s'.1 ∧ s'.2 = act.apply s.2

/-- Some acts lead from the start to this phase and state. -/
def Phase.Reaches (executor : ToolExecutor) (start : Live) (phase : Phase) (live : Live) : Prop :=
  ∃ acts, Run (Phase.Step executor) (.idle none, start) acts (phase, live)

namespace Phase

variable {executor : ToolExecutor} {start : Live}

/-- Where a run starts. -/
theorem Reaches.refl : Reaches executor start (.idle none) start := ⟨[], .nil _⟩

/-- One more move. -/
theorem Reaches.move {phase phase' : Phase} {live : Live} {act : Act}
    (h : Reaches executor start phase live)
    (hmove : phase.Moves executor live.execution.history.working act phase') :
    Reaches executor start phase' (act.apply live) :=
  let ⟨acts, hrun⟩ := h
  ⟨acts ++ [act], hrun.snoc ⟨hmove, rfl⟩⟩

/-- Stopped in some phase. -/
def Stopped (executor : ToolExecutor) (start : Live) (_ : Interrupt) (live : Live) : Prop :=
  ∃ phase, Reaches executor start phase live

/-- A program that ends in some phase, or stops in one, leaves a phase behind. -/
theorem reaches_of_spec {α : Type} {P : Live → Prop} {m : AgentRun α}
    (h : Effect.Spec P m (fun _ live => ∃ phase, Reaches executor start phase live)
      (Stopped executor start)) {live : Live} (hP : P live) :
    ∃ phase, Reaches executor start phase (m live).2 := by
  rcases hm : m live with ⟨interrupt | a, live'⟩
  · exact h.error hP hm
  · exact h.ok hP hm

/-! ## The functions of the agent, as acts -/

/-- An event is a move. -/
theorem emit_spec {phase phase' : Phase} {event : AgentEvent}
    (h : ∀ working, phase.Moves executor working (.emit event) phase') :
    Effect.Spec (Reaches executor start phase) (emit event)
      (fun _ => Reaches executor start phase') (Stopped executor start) :=
  Effect.Spec.modify fun _ hreach => hreach.move (h _)

/-- Awaiting changes nothing: it goes on in the same phase or stops there. -/
theorem lift_spec {α : Type} {phase : Phase} (f : Live → Except Interrupt α) :
    Effect.Spec (Reaches executor start phase) (Effect.lift f)
      (fun a live => f live = .ok a ∧ Reaches executor start phase live)
      (Stopped executor start) :=
  Effect.Spec.intro
    (fun live a live' hreach h => by
      obtain ⟨ha, rfl⟩ := Prod.mk.inj h
      exact ⟨ha, hreach⟩)
    fun live e live' hreach h => by
      obtain ⟨-, rfl⟩ := Prod.mk.inj h
      exact ⟨phase, hreach⟩

/-- An await moves nothing, whatever its answer. -/
theorem await_spec {phase : Phase} (answer : Except Interrupt Unit) :
    Effect.Spec (Reaches executor start phase) (await answer)
      (fun _ => Reaches executor start phase) (Stopped executor start) :=
  (lift_spec _).weaken (fun _ => id) (fun _ _ h => h.2) fun _ _ => id

section Turn

variable {attempt : Attempt} {turn : AssistantTurn}

/-- A call is answered. -/
theorem executeTool_spec {outcomes : List ToolExecutionOutcome} {call : ToolCallBlock}
    {calls : List ToolCallBlock} (answer : ToolAnswer) :
    Effect.Spec (Reaches executor start (.answering attempt turn outcomes (call :: calls)))
      (executeTool executor call answer)
      (fun outcome =>
        Reaches executor start (.answering attempt turn (outcomes ++ [outcome]) calls))
      (Stopped executor start) :=
  (emit_spec fun _ => .startTool).bind fun _ => (lift_spec _).bind fun _ =>
    Effect.Spec.assume fun houtcome => (emit_spec fun _ => .endTool houtcome).bind fun _ =>
      Effect.Spec.pure fun _ => id

/-- The calls of a turn are answered one after another. -/
theorem executeTools_spec : ∀ (calls : List ToolCallBlock) (answers : List ToolAnswer)
    (outcomes : List ToolExecutionOutcome),
    Effect.Spec (Reaches executor start (.answering attempt turn outcomes calls))
      (executeTools executor calls answers)
      (fun new => Reaches executor start (.answering attempt turn (outcomes ++ new) []))
      (Stopped executor start)
  | [], _, outcomes => Effect.Spec.pure fun _ h => by rwa [List.append_nil]
  | call :: calls, answers, outcomes =>
    (executeTool_spec (answers.headD (.escapes .pending))).bind fun outcome =>
      (executeTools_spec calls answers.tail (outcomes ++ [outcome])).bind fun new =>
        Effect.Spec.pure fun _ h => by rwa [List.append_assoc] at h

/-- A completed turn: its calls are answered, and it ends. -/
theorem handleStreamDoneEvent_spec (answers : List ToolAnswer) (event : StreamDoneEvent) :
    Effect.Spec (Reaches executor start (.streaming attempt))
      (handleStreamDoneEvent executor answers event)
      (fun result => Reaches executor start (attempt.after result)) (Stopped executor start) :=
  (emit_spec fun _ => .completeMessage rfl).bind fun _ =>
    (executeTools_spec _ answers []).bind fun _ =>
      (emit_spec fun _ => .endTurn).bind fun _ => Effect.Spec.pure fun _ => id

/-- After one event of the stream, the turn is over or streams on. -/
theorem handleStreamEvent_spec (answers : List ToolAnswer) (event : ProviderStreamEvent) :
    Effect.Spec (Reaches executor start (.streaming attempt))
      (handleStreamEvent executor answers event)
      (fun result => Reaches executor start ((result.map attempt.after).getD (.streaming attempt)))
      (Stopped executor start) := by
  cases event with
  | streamStart source responseId =>
    exact (emit_spec fun _ => .startTurn).bind fun _ =>
      (emit_spec fun _ => .startMessage).bind fun _ => Effect.Spec.pure fun _ => id
  | update event =>
    exact (emit_spec fun _ => .updateMessage).bind fun _ => Effect.Spec.pure fun _ => id
  | done event =>
    exact (handleStreamDoneEvent_spec answers event).bind fun _ => Effect.Spec.pure fun _ => id
  | error event =>
    exact (emit_spec fun _ => .failMessage (AssistantTurn.fromStreamError_status_ne event)).bind
      fun _ => Effect.Spec.raise fun _ h => ⟨_, h⟩

/-- A stream is consumed event by event, up to the one that ends the turn. -/
theorem consumeStream_spec (script : TurnScript) : ∀ events : List ProviderStreamEvent,
    Effect.Spec (Reaches executor start (.streaming attempt))
      (consumeStream executor script events)
      (fun result => Reaches executor start ((result.map attempt.after).getD (.streaming attempt)))
      (Stopped executor start)
  | [] => (await_spec _).bind fun _ => Effect.Spec.pure fun _ => id
  | event :: rest => (handleStreamEvent_spec script.tools event).bind fun
    | some _ => Effect.Spec.pure fun _ => id
    | none => consumeStream_spec script rest

/-- Closing a stream moves nothing. -/
theorem aclosing_spec {α : Type} {closing : Except Interrupt Unit} {body : AgentRun α}
    {P : Live → Prop} {phaseOf : α → Phase}
    (h : Effect.Spec P body (fun a => Reaches executor start (phaseOf a))
      (Stopped executor start)) :
    Effect.Spec P (aclosing closing body) (fun a => Reaches executor start (phaseOf a))
      (Stopped executor start) := by
  intro live hP
  rw [aclosing]
  rcases hbody : body live with ⟨interrupt | a, live'⟩
  · have hstopped := h.error hP hbody
    cases interrupt with
    | pending => exact hstopped
    | raised _ | cancelled => cases closing <;> exact hstopped
  · have hreach := h.ok hP hbody
    cases closing with
    | ok _ => exact hreach
    | error _ => exact ⟨_, hreach⟩

/-- A turn from its start to its end. -/
theorem runProviderTurn_spec (instructions : String) (script : TurnScript) :
    Effect.Spec (Reaches executor start (.ready attempt))
      (runProviderTurn executor instructions attempt.history script)
      (fun result => Reaches executor start (attempt.after result)) (Stopped executor start) := by
  refine Effect.Spec.bind (Effect.Spec.modify fun _ h => h.move .callProvider) fun _ =>
    (await_spec _).bind fun _ => (aclosing_spec (consumeStream_spec script _)).bind fun
      | some _ => Effect.Spec.pure fun _ => id
      | none => Effect.Spec.raise fun _ h => ⟨_, h⟩

end Turn

/-- Turns, until one asks for no more. -/
theorem runAgentLoop_spec (instructions : String) : ∀ (turns : List TurnScript) (attempt : Attempt),
    Effect.Spec (Reaches executor start (.ready attempt))
      (runAgentLoop executor instructions turns attempt.history attempt.toolExecutions)
      (fun result live => ∃ final : Attempt, final.toolExecutions = result.toolExecutions ∧
        Reaches executor start (.done final) live)
      (Stopped executor start)
  | [], attempt => Effect.Spec.raise fun _ h => ⟨_, h⟩
  | script :: rest, attempt => by
    refine (runProviderTurn_spec instructions script).bind fun result => ?_
    rw [Attempt.after]
    split
    · exact runAgentLoop_spec instructions rest (attempt.extend result)
    · exact Effect.Spec.pure fun _ h => ⟨attempt.extend result, rfl, h⟩

/-- An agent from its start to its end. -/
theorem runAgent_spec (instructions : String) (turns : List TurnScript)
    (previous : Option Attempt) :
    Effect.Spec (Reaches executor start (.idle previous)) (runAgent executor instructions turns)
      (fun result live => ∃ final : Attempt, final.toolExecutions = result.toolExecutions ∧
        Reaches executor start (.idle (some final)) live)
      (Stopped executor start) := by
  refine Effect.Spec.bind (Effect.Spec.modify (Q := fun _ live => Reaches executor start
    (.ready ⟨live.execution.history.working, []⟩) live) fun live h => ?_) fun _ => ?_
  · have hworking : (live.emit .agentStart).execution.history.working
        = live.execution.history.working := List.append_nil _
    exact hworking ▸ h.move .startAgent
  refine Effect.Spec.bind (Effect.Spec.gets (Q := fun history live => Reaches executor start
    (.ready ⟨history, []⟩) live) fun _ => id) fun history => ?_
  refine (runAgentLoop_spec instructions turns ⟨history, []⟩).bind fun result => ?_
  refine Effect.Spec.bind (Effect.Spec.modify (Q := fun _ live => ∃ final : Attempt,
    final.toolExecutions = result.toolExecutions ∧ Reaches executor start (.idle (some final)) live)
    ?_) fun _ => Effect.Spec.pure fun _ => id
  exact fun live ⟨final, htools, h⟩ => ⟨final, htools, h.move .endAgent⟩

/-- An attempt is a run of the agent. -/
theorem runAttempt_spec {deps : ExecutionDependencies} (script : AttemptScript)
    (previous : Option Attempt) :
    Effect.Spec (Reaches deps.toolExecutor start (.idle previous)) (runAttempt deps script)
      (fun result live => ∃ final : Attempt, final.toolExecutions = result.toolExecutions ∧
        Reaches deps.toolExecutor start (.idle (some final)) live)
      (Stopped deps.toolExecutor start) :=
  (lift_spec _).bind fun _ => Effect.Spec.assume fun _ => runAgent_spec _ script.turns previous

/-- Attempts, with a follow-up between any two. -/
theorem typedAttempts_spec {deps : ExecutionDependencies} :
    ∀ (left : Nat) (scripts : List AttemptScript) (previous : Option Attempt),
      Effect.Spec (Reaches deps.toolExecutor start (.idle previous))
        (typedAttempts deps left scripts)
        (fun _ live => ∃ previous, Reaches deps.toolExecutor start (.idle previous) live)
        (Stopped deps.toolExecutor start)
  | 0, _, previous => Effect.Spec.pure fun _ h => ⟨previous, h⟩
  | left + 1, scripts, previous => by
    refine (runAttempt_spec (scripts.headD {}) previous).bind fun result =>
      Effect.Spec.exists fun final => Effect.Spec.assume fun _ => ?_
    cases resultOutcome result.toolExecutions with
    | some outcome => exact Effect.Spec.pure fun _ h => ⟨_, h⟩
    | none =>
      refine Effect.Spec.bind (Q := fun _ live => ∃ previous,
        Reaches deps.toolExecutor start (.idle previous) live) ?_ fun _ =>
          Effect.Spec.exists fun previous => typedAttempts_spec left scripts.tail previous
      rw [emitFollowUp]
      split
      · exact Effect.Spec.modify fun _ h => ⟨none, h.move .followUp⟩
      · exact Effect.Spec.pure fun _ h => ⟨some final, h⟩

end Phase

open Phase

/-- **Wherever a prompt run stops, its acts are legal**: they lead from the accepted run to the
state execution stops in. -/
theorem executePrompt_reaches (deps : ExecutionDependencies)
    (result : Option ResultModel) (script : PromptScript) (start : Live) :
    ∃ executor phase, Reaches executor start phase (executePrompt deps result script start).2 := by
  unfold executePrompt
  split
  · exact ⟨deps.toolExecutor, _, .refl⟩
  cases result with
  | none =>
    refine ⟨deps.toolExecutor, reaches_of_spec ((runAttempt_spec _ none).bind fun _ => ?_) .refl⟩
    exact Effect.Spec.pure fun _ ⟨final, _, h⟩ => ⟨.idle (some final), h⟩
  | some result =>
    dsimp only
    rw [executeTyped]
    cases hdeps : typedAttemptDependencies deps result with
    | error error => exact ⟨deps.toolExecutor, _, .refl⟩
    | ok attemptDependencies =>
      refine ⟨attemptDependencies.toolExecutor, reaches_of_spec ((typedAttempts_spec
        (MAX_RESULT_FOLLOW_UPS + 1) script.attempts none).weaken (fun _ => id) ?_
          fun _ _ => id) .refl⟩
      exact fun _ _ ⟨previous, h⟩ => ⟨.idle previous, h⟩

/-- **Execution only emits**: whatever it did to its run are events it emitted, none of which is one
of the run itself. -/
theorem executePrompt_emits (deps : ExecutionDependencies)
    (result : Option ResultModel) (script : PromptScript) (start : Live) :
    ∃ inner : List AgentEvent, (∀ event ∈ inner, event.isLifecycle = false) ∧
      (executePrompt deps result script start).2.execution = start.execution.emitAll inner := by
  obtain ⟨executor, phase, acts, hrun⟩ := executePrompt_reaches deps result script start
  suffices h : ∀ s : Phase × Live, ∀ acts, Run (Phase.Step executor) (.idle none, start) acts s →
      ∃ inner : List AgentEvent, (∀ event ∈ inner, event.isLifecycle = false) ∧
        s.2.execution = start.execution.emitAll inner from h _ acts hrun
  intro s acts hrun
  refine hrun.invariant (P := fun s => ∃ inner : List AgentEvent,
    (∀ event ∈ inner, event.isLifecycle = false) ∧
      s.2.execution = start.execution.emitAll inner) ?_ ⟨[], by simp, rfl⟩
  rintro ⟨phase, live⟩ act ⟨phase', live'⟩ ⟨hmove, rfl⟩ ⟨inner, hinner, heq⟩
  cases act with
  | request => exact ⟨inner, hinner, heq⟩
  | emit event =>
    refine ⟨inner ++ [event], ?_, ?_⟩
    · have hevent : event.isLifecycle = false := by cases hmove <;> rfl
      simpa [or_imp, forall_and] using ⟨hinner, hevent⟩
    · rw [RunExecution.emitAll, List.foldl_append]
      exact congrArg (RunExecution.emit event) heq

end Tile
