import Tile.Library.Output
import Tile.Runtime.Execution

/-!
# Runtime/RunLog — the log of a run as a tree

    run ⊃ attempt ⊃ turn ⊃ opening · message · tool scopes

Each layer of execution adds the events of its own node: a layer that ends adds a whole node, and a
layer that is left at any await adds a prefix of one.  `Opening` and `Allowed` are what is known of
the environment: what a provider shows before it ends a message, and what a tool may answer.
-/

namespace Tile

/-- A tool call and what came of it. -/
structure ToolScope where
  call : ToolCallBlock
  outcome : ToolExecutionOutcome

/-- One provider turn: the stream events shown before its message ended, the message, the tools. -/
structure TurnLog where
  opening : List ProviderStreamEvent
  message : AssistantTurn
  scopes : List ToolScope

/-- One agent attempt. -/
structure AttemptLog where
  turns : List TurnLog

/-- The event takes the turn out of its stream. -/
def ProviderStreamEvent.endsMessage : ProviderStreamEvent → Bool
  | .done _ | .error _ => true
  | .streamStart _ _ | .update _ => false

/-- What a turn logs for a stream event that does not end its message. -/
def ProviderStreamEvent.shown : ProviderStreamEvent → List AgentEvent
  | .streamStart _ responseId => [.turnStart, .messageStart (some responseId)]
  | .update event => [.messageUpdate event]
  | .done _ | .error _ => []

/-! ## The events of a tree -/

/-- What a scope shows. -/
def ToolScope.events (scope : ToolScope) : List AgentEvent :=
  [.toolExecutionStart scope.call.callId scope.call.name scope.call.arguments,
    .toolExecutionEnd scope.outcome]

/-- A turn from the end of its message on. -/
def turnTail (message : AssistantTurn) (scopes : List ToolScope) : List AgentEvent :=
  .messageEnd message ::
    (scopes.flatMap ToolScope.events ++ [.turnEnd message (scopes.map (·.outcome))])

namespace TurnLog

variable (turn : TurnLog)

def events : List AgentEvent :=
  turn.opening.flatMap ProviderStreamEvent.shown ++ turnTail turn.message turn.scopes

def outcomes : List ToolExecutionOutcome := turn.scopes.map (·.outcome)

def result : TurnResult := ⟨turn.message, turn.outcomes⟩

end TurnLog

namespace AttemptLog

variable (attempt : AttemptLog)

def events : List AgentEvent := .agentStart :: (attempt.turns.flatMap TurnLog.events ++ [.agentEnd])

def outcomes : List ToolExecutionOutcome := attempt.turns.flatMap TurnLog.outcomes

end AttemptLog

/-- The event of a follow-up. -/
def followUpEvent : AgentEvent := .resultFollowUp { content := RESULT_FOLLOW_UP }

/-- Attempts, with a reminder between two of them. -/
def attemptsEvents : List AttemptLog → List AgentEvent
  | [] => []
  | [attempt] => attempt.events
  | attempt :: rest => attempt.events ++ followUpEvent :: attemptsEvents rest

/-- How many provider turns some attempts took. -/
def turnCount : List AttemptLog → Nat
  | [] => 0
  | attempt :: rest => attempt.turns.length + turnCount rest

/-! ## What is known of the nodes -/

/-- The outcome answers the call. -/
def ToolScope.Paired (scope : ToolScope) : Prop :=
  scope.outcome.toolResultTurn.callId = scope.call.callId

/-- What an environment may do in a turn. -/
structure Environment where
  /-- What a stream may show before it ends its message. -/
  Opening : List ProviderStreamEvent → Prop
  /-- What a tool may answer. -/
  Allowed : ToolAnswer → Prop
  exists_opening : ∃ opening, Opening opening
  allowed_pending : Allowed (.escapes .pending)

/-- A stream shows openings: as it ends its message, and, completed, wherever it is cut. -/
structure Opens (Opening : List ProviderStreamEvent → Prop) (events : List ProviderStreamEvent) :
    Prop where
  ended : ∀ opening last, opening ++ [last] <+: events → (∀ e ∈ opening, e.endsMessage = false) →
    last.endsMessage = true → Opening opening
  cut : ∀ opening, opening <+: events → (∀ e ∈ opening, e.endsMessage = false) →
    ∃ completed, opening <+: completed ∧ Opening completed

/-- The environment of a turn is of this kind. -/
structure Environment.Admits (env : Environment) (script : TurnScript) : Prop where
  opens : Opens env.Opening script.events
  allowed : ∀ answer ∈ script.tools, env.Allowed answer

section Nodes

variable (executor : ToolExecutor) (env : Environment)

/-- The scope is what the executor made of its call. -/
def ToolScope.Ran (scope : ToolScope) : Prop :=
  ∃ answer, env.Allowed answer ∧
    executor.execute scope.call.callId scope.call.name scope.call.arguments answer
      = .ok scope.outcome

/-- A turn that could have been logged: its opening is one, and its scopes pair. -/
structure TurnLog.Shaped (turn : TurnLog) : Prop where
  opening : env.Opening turn.opening
  paired : ∀ scope ∈ turn.scopes, scope.Paired

/-- A turn that ended: it ran every call of its message, in order. -/
structure TurnLog.Ran (turn : TurnLog) : Prop where
  opening : env.Opening turn.opening
  calls : turn.scopes.map (·.call) = turn.message.toolCalls
  scopes : ∀ scope ∈ turn.scopes, scope.Ran executor env

structure AttemptLog.Shaped (attempt : AttemptLog) : Prop where
  nonempty : attempt.turns ≠ []
  turns : ∀ turn ∈ attempt.turns, turn.Shaped env

/-- An attempt that ended: it went on after each turn but the last. -/
structure AttemptLog.Ran (attempt : AttemptLog) : Prop where
  nonempty : attempt.turns ≠ []
  turns : ∀ turn ∈ attempt.turns, turn.Ran executor env
  continued : ∀ turn ∈ attempt.turns.dropLast, turn.result.shouldContinue = true
  stopped : ∀ turn ∈ attempt.turns.getLast?, turn.result.shouldContinue = false

variable {executor env}

theorem ToolScope.Ran.paired {scope : ToolScope} (h : scope.Ran executor env) : scope.Paired :=
  let ⟨_, _, hrun⟩ := h
  (executor.execute_eq_ok hrun).1

theorem TurnLog.Ran.shaped {turn : TurnLog} (h : turn.Ran executor env) : turn.Shaped env :=
  ⟨h.opening, fun scope hscope => (h.scopes scope hscope).paired⟩

theorem AttemptLog.Ran.shaped {attempt : AttemptLog} (h : attempt.Ran executor env) :
    attempt.Shaped env :=
  ⟨h.nonempty, fun turn hturn => (h.turns turn hturn).shaped⟩

theorem AttemptLog.Ran.cons {turn : TurnLog} {turns : List TurnLog}
    (hturn : turn.Ran executor env) (hcontinue : turn.result.shouldContinue = true)
    (h : (⟨turns⟩ : AttemptLog).Ran executor env) :
    (⟨turn :: turns⟩ : AttemptLog).Ran executor env where
  nonempty := List.cons_ne_nil _ _
  turns := by simpa using ⟨hturn, h.turns⟩
  continued := by
    simpa [List.dropLast_cons_of_ne_nil h.nonempty] using ⟨hcontinue, h.continued⟩
  stopped := by simpa [List.getLast?_cons_of_ne_nil h.nonempty] using h.stopped

/-- A call that is answered by nothing yet can still be answered. -/
theorem ToolScope.exists_paired (call : ToolCallBlock) :
    ∃ scope : ToolScope, scope.call = call ∧ scope.Paired :=
  ⟨⟨call, .fromError call.callId call.name "" none⟩, rfl, rfl⟩

theorem AttemptLog.exists_shaped (env : Environment) :
    ∃ attempt : AttemptLog, attempt.Shaped env := by
  obtain ⟨opening, hopening⟩ := env.exists_opening
  refine ⟨⟨[⟨opening, {}, []⟩]⟩, by simp, fun turn hturn => ?_⟩
  obtain rfl := List.mem_singleton.mp hturn
  exact ⟨hopening, by simp⟩

end Nodes

/-! ## What a run adds -/

/-- Events, and requests to the provider. -/
@[ext] structure RunOutput where
  events : List AgentEvent := []
  requests : Nat := 0

def runMeter : Meter Live RunOutput where
  Grows live added live' :=
    live'.execution.events = live.execution.events ++ added.events ∧
      live'.requests.length = live.requests.length + added.requests
  zero := {}
  add added added' := ⟨added.events ++ added'.events, added.requests + added'.requests⟩
  grows_zero := fun live => by simp
  grows_add := fun h h' => by
    refine ⟨by rw [h'.1, h.1, List.append_assoc], ?_⟩
    rw [h'.2, h.2, Nat.add_assoc]

@[simp] theorem runMeter_zero : runMeter.zero = {} := rfl

@[simp] theorem runMeter_add (added added' : RunOutput) : runMeter.add added added'
    = ⟨added.events ++ added'.events, added.requests + added'.requests⟩ := rfl

theorem emit_adds (event : AgentEvent) {E : Interrupt → RunOutput → Prop} :
    Effect.Adds runMeter (emit event) (fun _ added => added = ⟨[event], 0⟩) E :=
  .modify (fun _ => ⟨rfl, rfl⟩) rfl

theorem await_adds {answer : Except Interrupt Unit} {E : Interrupt → RunOutput → Prop}
    (h : ∀ e, E e {}) : Effect.Adds runMeter (await answer) (fun _ added => added = {}) E :=
  .lift (fun _ _ _ => rfl) fun _ e _ => h e

/-! ## Tools -/

section Execution

variable {executor : ToolExecutor} {env : Environment}

theorem executeTool_adds {call : ToolCallBlock} {answer : ToolAnswer} (h : env.Allowed answer) :
    Effect.Adds runMeter (executeTool executor call answer)
      (fun outcome added => (⟨call, outcome⟩ : ToolScope).Ran executor env ∧
        added = ⟨(⟨call, outcome⟩ : ToolScope).events, 0⟩)
      fun _ added => ∃ scope : ToolScope, scope.Paired ∧ added.events <+: scope.events := by
  obtain ⟨scope, rfl, hpaired⟩ := ToolScope.exists_paired call
  refine (emit_adds _).bind ?_
  rintro - _ rfl
  have hexecute : Effect.Adds runMeter
      (Effect.lift fun _ =>
        executor.execute scope.call.callId scope.call.name scope.call.arguments answer)
      (fun outcome added => added = {} ∧ (⟨scope.call, outcome⟩ : ToolScope).Ran executor env)
      fun _ added => added = {} :=
    .lift (fun _ outcome hrun => ⟨rfl, answer, h, hrun⟩) fun _ _ _ => rfl
  refine (hexecute.weaken (fun _ _ => id) ?_).bind ?_
  · rintro - _ rfl
    exact ⟨scope, hpaired, by simp [ToolScope.events]⟩
  · rintro outcome _ ⟨rfl, hran⟩
    refine (emit_adds _).bind ?_
    rintro - _ rfl
    exact .pure ⟨hran, by simp [ToolScope.events]⟩

theorem executeTools_adds (executor : ToolExecutor) (env : Environment) :
    ∀ (calls : List ToolCallBlock) (answers : List ToolAnswer),
      (∀ answer ∈ answers, env.Allowed answer) →
      Effect.Adds runMeter (executeTools executor calls answers)
        (fun outcomes added => ∃ scopes : List ToolScope, scopes.map (·.call) = calls ∧
          (∀ scope ∈ scopes, scope.Ran executor env) ∧ scopes.map (·.outcome) = outcomes ∧
          added = ⟨scopes.flatMap ToolScope.events, 0⟩)
        fun _ added => ∃ scopes : List ToolScope, (∀ scope ∈ scopes, scope.Paired) ∧
          added.events <+: scopes.flatMap ToolScope.events
  | [], _, _ => .pure ⟨[], rfl, by simp, rfl, rfl⟩
  | call :: calls, answers, h => by
    have hfirst : env.Allowed (answers.headD (.escapes .pending)) := by
      cases answers with
      | nil => exact env.allowed_pending
      | cons answer _ => exact h answer (by simp)
    have hrest := executeTools_adds executor env calls answers.tail
      fun answer hanswer => h answer (List.mem_of_mem_tail hanswer)
    refine ((executeTool_adds hfirst).weaken (fun _ _ => id) ?_).bind ?_
    · rintro - added ⟨scope, hpaired, hprefix⟩
      exact ⟨[scope], by simpa using hpaired, by simpa using hprefix⟩
    rintro outcome _ ⟨hran, rfl⟩
    refine (hrest.weaken (fun _ _ => id) ?_).bind ?_
    · rintro - added ⟨scopes, hpaired, hprefix⟩
      refine ⟨⟨call, outcome⟩ :: scopes, ?_, ?_⟩
      · simpa using ⟨hran.paired, hpaired⟩
      · simpa using hprefix
    · rintro outcomes _ ⟨scopes, rfl, hrans, rfl, rfl⟩
      exact .pure ⟨⟨call, outcome⟩ :: scopes, rfl, by simpa using ⟨hran, hrans⟩, rfl, by simp⟩

/-! ## Turns -/

/-- A turn that was left: what it added starts a turn that could have been logged. -/
def CutTurn (env : Environment) (added : RunOutput) : Prop :=
  ∃ turn : TurnLog, turn.Shaped env ∧ added.events <+: turn.events

theorem handleStreamDoneEvent_adds {answers : List ToolAnswer}
    (h : ∀ answer ∈ answers, env.Allowed answer) (event : StreamDoneEvent) :
    Effect.Adds runMeter (handleStreamDoneEvent executor answers event)
      (fun result added => ∃ scopes : List ToolScope,
        scopes.map (·.call) = (AssistantTurn.fromStreamDone event).toolCalls ∧
        (∀ scope ∈ scopes, scope.Ran executor env) ∧
        result = ⟨.fromStreamDone event, scopes.map (·.outcome)⟩ ∧
        added = ⟨turnTail (.fromStreamDone event) scopes, 0⟩)
      fun _ added => ∃ scopes : List ToolScope, (∀ scope ∈ scopes, scope.Paired) ∧
        added.events <+: turnTail (.fromStreamDone event) scopes := by
  refine (emit_adds _).bind ?_
  rintro - _ rfl
  refine ((executeTools_adds executor env _ _ h).weaken (fun _ _ => id) ?_).bind ?_
  · rintro - added ⟨scopes, hpaired, hprefix⟩
    refine ⟨scopes, hpaired, ?_⟩
    simpa [turnTail] using hprefix.trans (List.prefix_append _ _)
  rintro outcomes _ ⟨scopes, hcalls, hrans, rfl, rfl⟩
  refine (emit_adds _).bind ?_
  rintro - _ rfl
  exact .pure ⟨scopes, hcalls, hrans, rfl, by simp [turnTail]⟩

/-- What a turn adds from some point of its stream on. -/
theorem Opens.tail {Opening : List ProviderStreamEvent → Prop} {event : ProviderStreamEvent}
    {rest : List ProviderStreamEvent} (h : Opens Opening (event :: rest))
    (hevent : event.endsMessage = false) :
    Opens (fun opening => Opening (event :: opening)) rest where
  ended := fun opening last hprefix hopen hlast =>
    h.ended (event :: opening) last (List.cons_prefix_cons.mpr ⟨rfl, hprefix⟩)
      (by simpa [hevent] using hopen) hlast
  cut := by
    intro opening hprefix hopen
    obtain ⟨_, ⟨tail, rfl⟩, hcompleted⟩ := h.cut (event :: opening)
      (List.cons_prefix_cons.mpr ⟨rfl, hprefix⟩) (by simpa [hevent] using hopen)
    exact ⟨opening ++ tail, List.prefix_append _ _, hcompleted⟩

/-- What a turn adds once it has shown `before`, when it is left. -/
def CutAfter (env : Environment) (before : List ProviderStreamEvent) (added : RunOutput) : Prop :=
  CutTurn env ⟨before.flatMap ProviderStreamEvent.shown ++ added.events, 0⟩

/-- What a turn adds once it has shown `before`, when it comes to an end. -/
def EndAfter (executor : ToolExecutor) (env : Environment) (before : List ProviderStreamEvent)
    (result : TurnResult) (added : RunOutput) : Prop :=
  ∃ turn : TurnLog, turn.Ran executor env ∧ turn.result = result ∧
    turn.events = before.flatMap ProviderStreamEvent.shown ++ added.events ∧ added.requests = 0

theorem CutAfter.cons {before : List ProviderStreamEvent} {event : ProviderStreamEvent}
    {added : RunOutput} (h : CutAfter env (before ++ [event]) added) :
    CutAfter env before ⟨event.shown ++ added.events, 0 + added.requests⟩ := by
  simpa [CutAfter] using h

theorem EndAfter.cons {before : List ProviderStreamEvent} {event : ProviderStreamEvent}
    {result : TurnResult} {added : RunOutput}
    (h : EndAfter executor env (before ++ [event]) result added) :
    EndAfter executor env before result ⟨event.shown ++ added.events, 0 + added.requests⟩ := by
  simpa [EndAfter] using h

/-- An event that keeps the message open is shown. -/
theorem handleStreamEvent_adds {answers : List ToolAnswer} {event : ProviderStreamEvent}
    (h : event.endsMessage = false) {E : Interrupt → RunOutput → Prop} :
    Effect.Adds runMeter (handleStreamEvent executor answers event)
      (fun result added => result = none ∧ added = ⟨event.shown, 0⟩) E := by
  cases event with
  | streamStart source responseId =>
    refine (emit_adds _).bind ?_
    rintro - _ rfl
    refine (emit_adds _).bind ?_
    rintro - _ rfl
    exact .pure ⟨rfl, rfl⟩
  | update event =>
    refine (emit_adds _).bind ?_
    rintro - _ rfl
    exact .pure ⟨rfl, rfl⟩
  | done _ | error _ => simp [ProviderStreamEvent.endsMessage] at h

/-- An event that ends the message ends the turn, or takes it out of its stream. -/
theorem handleStreamEvent_adds_last {answers : List ToolAnswer}
    (h : ∀ answer ∈ answers, env.Allowed answer) {before : List ProviderStreamEvent}
    (hopening : env.Opening before) {event : ProviderStreamEvent}
    (hevent : event.endsMessage = true) :
    Effect.Adds runMeter (handleStreamEvent executor answers event)
      (fun result added => ∃ r, result = some r ∧ EndAfter executor env before r added)
      fun _ added => CutAfter env before added := by
  cases event with
  | streamStart _ _ | update _ => simp [ProviderStreamEvent.endsMessage] at hevent
  | done event =>
    refine ((handleStreamDoneEvent_adds h event).weaken (fun _ _ => id) ?_).bind ?_
    · rintro - added ⟨scopes, hpaired, hprefix⟩
      exact ⟨⟨before, _, scopes⟩, ⟨hopening, hpaired⟩,
        (List.prefix_append_right_inj _).mpr hprefix⟩
    · rintro result _ ⟨scopes, hcalls, hrans, rfl, rfl⟩
      exact .pure ⟨_, rfl, ⟨before, .fromStreamDone event, scopes⟩, ⟨hopening, hcalls, hrans⟩, rfl,
        by simp [TurnLog.events], rfl⟩
  | error event =>
    refine (emit_adds _).bind ?_
    rintro - _ rfl
    refine .raise ⟨⟨before, .fromStreamError event, []⟩, ⟨hopening, by simp⟩, ?_⟩
    simp [TurnLog.events, turnTail]

theorem consumeStream_adds {script : TurnScript} (h : ∀ answer ∈ script.tools, env.Allowed answer) :
    ∀ (events before : List ProviderStreamEvent),
      Opens (fun opening => env.Opening (before ++ opening)) events →
      Effect.Adds runMeter (consumeStream executor script events)
        (fun result added => match result with
          | none => CutAfter env before added
          | some result => EndAfter executor env before result added)
        fun _ added => CutAfter env before added
  | [], before, hopens => by
    have hcut : CutAfter env before {} := by
      obtain ⟨completed, -, hopening⟩ := hopens.cut [] List.prefix_rfl (by simp)
      refine ⟨⟨before ++ completed, {}, []⟩, ⟨hopening, by simp⟩, ?_⟩
      simp [TurnLog.events]
    refine (await_adds fun _ => hcut).bind ?_
    rintro - _ rfl
    exact .pure hcut
  | event :: rest, before, hopens => by
    cases hevent : event.endsMessage with
    | false =>
      have hrest := consumeStream_adds h rest (before ++ [event])
        (by simpa using hopens.tail hevent)
      refine (handleStreamEvent_adds hevent).bind ?_
      rintro _ _ ⟨rfl, rfl⟩
      refine hrest.weaken (fun result added hresult => ?_) fun _ added hcut => hcut.cons
      cases result with
      | none => exact hresult.cons
      | some result => exact hresult.cons
    | true =>
      have hopening : env.Opening before := by
        have hended := hopens.ended [] event (List.prefix_append [event] rest) (by simp) hevent
        simpa using hended
      refine (handleStreamEvent_adds_last h hopening hevent).bind ?_
      rintro _ added ⟨result, rfl, hresult⟩
      exact .pure (by simpa [EndAfter] using hresult)

theorem aclosing_adds {α : Type} {closing : Except Interrupt Unit} {body : AgentRun α}
    {Q : α → RunOutput → Prop} {E : RunOutput → Prop}
    (hbody : Effect.Adds runMeter body Q fun _ => E) (hQ : ∀ a added, Q a added → E added) :
    Effect.Adds runMeter (aclosing closing body) Q fun _ => E := by
  intro live
  obtain ⟨added, hgrows, hresult⟩ := hbody live
  rcases hrun : body live with ⟨result, live'⟩
  rw [hrun] at hgrows hresult
  have hstop : E added := by
    cases result with
    | error _ => exact hresult
    | ok a => exact hQ a added hresult
  refine ⟨added, ?_⟩
  rw [aclosing, hrun]
  cases result with
  | ok a => cases closing with
    | ok _ => exact ⟨hgrows, hresult⟩
    | error _ => exact ⟨hgrows, hstop⟩
  | error e => cases e with
    | pending => exact ⟨hgrows, hstop⟩
    | raised _ | cancelled => cases closing with
      | ok _ | error _ => exact ⟨hgrows, hstop⟩

/-- **One provider turn** adds one request, and the events of one turn. -/
theorem runProviderTurn_adds {script : TurnScript} (h : env.Admits script) (instructions : String)
    (runHistory : List ConversationItem) :
    Effect.Adds runMeter (runProviderTurn executor instructions runHistory script)
      (fun result added => ∃ turn : TurnLog, turn.Ran executor env ∧ turn.result = result ∧
        added = ⟨turn.events, 1⟩)
      fun _ added => CutTurn env added := by
  obtain ⟨completed, -, hcompleted⟩ := h.opens.cut [] (List.nil_prefix) (by simp)
  have hnone : ∀ requests, CutTurn env ⟨[], requests⟩ := fun _ =>
    ⟨⟨completed, {}, []⟩, ⟨hcompleted, by simp⟩, List.nil_prefix⟩
  have hrequest : Effect.Adds runMeter
      (Effect.modify (Live.request runHistory instructions executor.tools) : AgentRun Unit)
      (fun _ added => added = ⟨[], 1⟩) fun _ added => CutTurn env added :=
    .modify (fun live => ⟨by simp [Live.request], by simp [Live.request]⟩) rfl
  have hstream := @consumeStream_adds executor env script h.allowed _ []
    (by simpa using h.opens)
  refine hrequest.bind ?_
  rintro - _ rfl
  refine (await_adds fun _ => hnone _).bind ?_
  rintro - _ rfl
  refine Effect.Adds.bind ((aclosing_adds hstream ?_).weaken (fun _ _ => id) ?_) ?_
  · rintro (_ | result) added hadded
    · exact hadded
    · obtain ⟨turn, hran, -, hevents, -⟩ := hadded
      exact ⟨turn, hran.shaped, by simp [hevents]⟩
  · rintro - added ⟨turn, hshaped, hprefix⟩
    exact ⟨turn, hshaped, by simpa using hprefix⟩
  · rintro (_ | result) added hadded
    · refine .raise ?_
      obtain ⟨turn, hshaped, hprefix⟩ := hadded
      exact ⟨turn, hshaped, by simpa using hprefix⟩
    · obtain ⟨turn, hran, rfl, hevents, hrequests⟩ := hadded
      refine .pure ⟨turn, hran, rfl, ?_⟩
      simp [hevents, hrequests]

/-! ## Attempts -/

/-- Some turns that were left, or that could go on. -/
def CutTurns (env : Environment) (added : RunOutput) : Prop :=
  ∃ turns : List TurnLog, turns ≠ [] ∧ (∀ turn ∈ turns, turn.Shaped env) ∧
    added.events <+: turns.flatMap TurnLog.events

theorem CutTurn.cutTurns {added : RunOutput} (h : CutTurn env added) : CutTurns env added := by
  obtain ⟨turn, hshaped, hprefix⟩ := h
  exact ⟨[turn], by simp, by simpa using hshaped, by simpa using hprefix⟩

theorem CutTurns.cons {turn : TurnLog} (hturn : turn.Shaped env) {added : RunOutput}
    (h : CutTurns env added) {requests : Nat} :
    CutTurns env ⟨turn.events ++ added.events, requests⟩ := by
  obtain ⟨turns, -, hshaped, hprefix⟩ := h
  refine ⟨turn :: turns, by simp, by simpa using ⟨hturn, hshaped⟩, ?_⟩
  simpa using hprefix

theorem runAgentLoop_adds (executor : ToolExecutor) (env : Environment) (instructions : String) :
    ∀ (scripts : List TurnScript) (runHistory : List ConversationItem)
      (toolExecutions : List ToolExecutionOutcome), (∀ script ∈ scripts, env.Admits script) →
      Effect.Adds runMeter (runAgentLoop executor instructions scripts runHistory toolExecutions)
        (fun result added => ∃ attempt : AttemptLog, attempt.Ran executor env ∧
          result.toolExecutions = toolExecutions ++ attempt.outcomes ∧
          added = ⟨attempt.turns.flatMap TurnLog.events, attempt.turns.length⟩)
        fun _ added => CutTurns env added
  | [], _, _, _ => by
    obtain ⟨attempt, hnonempty, hshaped⟩ := AttemptLog.exists_shaped env
    exact .raise ⟨attempt.turns, hnonempty, hshaped, List.nil_prefix⟩
  | script :: scripts, runHistory, toolExecutions, h => by
    have hrest := fun runHistory toolExecutions => runAgentLoop_adds executor env instructions
      scripts runHistory toolExecutions
      fun script hscript => h script (by simp [hscript])
    have hturn := @runProviderTurn_adds executor env script (h script (by simp)) instructions
      runHistory
    refine (hturn.weaken (fun _ _ => id) fun _ _ => CutTurn.cutTurns).bind ?_
    rintro _ _ ⟨turn, hran, rfl, rfl⟩
    split
    next hcontinue =>
      refine (hrest _ _).weaken ?_ fun _ _ hcut => hcut.cons hran.shaped
      rintro result _ ⟨⟨turns⟩, hattempt, houtcomes, rfl⟩
      refine ⟨⟨turn :: turns⟩, ?_, ?_, ?_⟩
      · exact hattempt.cons hran hcontinue
      · simpa [AttemptLog.outcomes, TurnLog.result] using houtcomes
      · simp [Nat.add_comm]
    next hstop =>
      refine .pure ⟨⟨[turn]⟩, ?_, by simp [AttemptLog.outcomes, TurnLog.result], by simp⟩
      exact ⟨by simp, by simpa using hran, by simp, by simpa using hstop⟩

/-- Attempts that were left: no more than `limit` of them. -/
def CutAttempts (env : Environment) (limit : Nat) (added : RunOutput) : Prop :=
  ∃ attempts : List AttemptLog, attempts ≠ [] ∧ attempts.length ≤ limit ∧
    (∀ attempt ∈ attempts, attempt.Shaped env) ∧ added.events <+: attemptsEvents attempts

theorem CutAttempts.of_nil (env : Environment) {limit : Nat} (h : 0 < limit) {requests : Nat} :
    CutAttempts env limit ⟨[], requests⟩ := by
  obtain ⟨attempt, hshaped⟩ := AttemptLog.exists_shaped env
  exact ⟨[attempt], by simp, h, by simpa using hshaped, List.nil_prefix⟩

theorem runAttempt_adds (deps : ExecutionDependencies) {script : AttemptScript}
    (h : ∀ turn ∈ script.turns, env.Admits turn) {limit : Nat} (hlimit : 0 < limit) :
    Effect.Adds runMeter (runAttempt deps script)
      (fun result added => ∃ attempt : AttemptLog, attempt.Ran deps.toolExecutor env ∧
        result.toolExecutions = attempt.outcomes ∧
        added = ⟨attempt.events, attempt.turns.length⟩)
      fun _ added => CutAttempts env limit added := by
  have hprompt : Effect.Adds runMeter
      (Effect.lift fun _ => (script.systemPrompt deps.instructions).mapError .raised :
        AgentRun String)
      (fun _ added => added = {}) fun _ added => CutAttempts env limit added :=
    .lift (fun _ _ _ => rfl) fun _ _ _ => .of_nil env hlimit
  refine hprompt.bind ?_
  rintro instructions _ rfl
  refine (emit_adds _).bind ?_
  rintro - _ rfl
  have hhistory : Effect.Adds runMeter
      (Effect.gets (·.execution.history.working) : AgentRun (List ConversationItem))
      (fun _ added => added = {}) fun _ added =>
        CutAttempts env limit ⟨[] ++ ([.agentStart] ++ added.events), 0 + (0 + added.requests)⟩ :=
    .gets fun _ => rfl
  refine hhistory.bind ?_
  rintro runHistory _ rfl
  have hloop := runAgentLoop_adds deps.toolExecutor env instructions script.turns runHistory []
    h
  refine (hloop.weaken (fun _ _ => id) ?_).bind ?_
  · rintro - added ⟨turns, hnonempty, hshaped, hprefix⟩
    refine ⟨[⟨turns⟩], by simp, hlimit, by simpa using ⟨hnonempty, hshaped⟩, ?_⟩
    simpa [attemptsEvents, AttemptLog.events] using hprefix.trans (List.prefix_append _ _)
  · rintro result _ ⟨attempt, hran, houtcomes, rfl⟩
    refine (emit_adds _).bind ?_
    rintro - _ rfl
    exact .pure ⟨attempt, hran, by simpa using houtcomes, by simp [AttemptLog.events]⟩

/-! ## Prompts -/

/-- What the attempts of a typed prompt conclude with, when `left` of them were left. -/
inductive Concludes : Nat → List AttemptLog → RunOutcome → Prop where
  | exhausted : Concludes 0 [] (.failed (.agentFailure NO_RESULT_REASON))
  | decided {left : Nat} {attempt : AttemptLog} {outcome : RunOutcome} :
      resultOutcome attempt.outcomes = some outcome → Concludes (left + 1) [attempt] outcome
  | missed {left : Nat} {attempt : AttemptLog} {rest : List AttemptLog} {outcome : RunOutcome} :
      resultOutcome attempt.outcomes = none → Concludes left rest outcome →
      Concludes (left + 1) (attempt :: rest) outcome

theorem Concludes.nonempty {left : Nat} {attempts : List AttemptLog} {outcome : RunOutcome}
    (h : Concludes (left + 1) attempts outcome) : attempts ≠ [] := by
  cases h <;> simp

theorem attemptsEvents_cons {attempt : AttemptLog} {rest : List AttemptLog} (h : rest ≠ []) :
    attemptsEvents (attempt :: rest) = attempt.events ++ followUpEvent :: attemptsEvents rest := by
  cases rest with
  | nil => exact absurd rfl h
  | cons _ _ => rfl

theorem emitFollowUp_adds (left : Nat) {E : Interrupt → RunOutput → Prop} :
    Effect.Adds runMeter (emitFollowUp left)
      (fun _ added => added = ⟨if left > 0 then [followUpEvent] else [], 0⟩) E := by
  rw [emitFollowUp]
  split
  next => exact emit_adds _
  next => exact .pure rfl

theorem CutAttempts.cons {attempt : AttemptLog} (hattempt : attempt.Shaped env) {left : Nat}
    {added : RunOutput} (h : CutAttempts env left added) {requests : Nat} :
    CutAttempts env (left + 1) ⟨attempt.events ++
      ((if left > 0 then [followUpEvent] else []) ++ added.events), requests⟩ := by
  obtain ⟨attempts, hnonempty, hlength, hshaped, hprefix⟩ := h
  have hleft : left > 0 := (List.length_pos_of_ne_nil hnonempty).trans_le hlength
  refine ⟨attempt :: attempts, by simp, by simpa using hlength,
    by simpa using ⟨hattempt, hshaped⟩, ?_⟩
  rw [attemptsEvents_cons hnonempty, if_pos hleft]
  simpa using hprefix

theorem typedAttempts_adds (deps : ExecutionDependencies) (env : Environment) :
    ∀ (left : Nat) (scripts : List AttemptScript),
      (∀ script ∈ scripts, ∀ turn ∈ script.turns, env.Admits turn) →
      Effect.Adds runMeter (typedAttempts deps left scripts)
        (fun outcome added => ∃ attempts : List AttemptLog, Concludes left attempts outcome ∧
          (∀ attempt ∈ attempts, attempt.Ran deps.toolExecutor env) ∧
          added = ⟨attemptsEvents attempts, turnCount attempts⟩)
        fun _ added => CutAttempts env left added
  | 0, _, _ => .pure ⟨[], .exhausted, by simp, rfl⟩
  | left + 1, scripts, h => by
    have hfirst : ∀ turn ∈ (scripts.headD {}).turns, env.Admits turn := by
      cases scripts with
      | nil => simp
      | cons script _ => exact h script (by simp)
    have hrest := typedAttempts_adds deps env left scripts.tail
      fun script hscript => h script (List.mem_of_mem_tail hscript)
    refine (runAttempt_adds deps hfirst left.succ_pos).bind ?_
    rintro result _ ⟨attempt, hran, houtcomes, rfl⟩
    rw [houtcomes]
    split
    next outcome houtcome =>
      refine .pure ⟨[attempt], .decided houtcome, by simpa using hran, ?_⟩
      simp [attemptsEvents, turnCount]
    next hmissed =>
      refine (emitFollowUp_adds left).bind ?_
      rintro - _ rfl
      refine hrest.weaken ?_ fun _ _ hcut => hcut.cons hran.shaped
      rintro outcome _ ⟨attempts, hconcludes, hrans, rfl⟩
      refine ⟨attempt :: attempts, .missed hmissed hconcludes, by simpa using ⟨hran, hrans⟩, ?_⟩
      cases left with
      | zero =>
        obtain ⟨⟩ := hconcludes
        simp [attemptsEvents, turnCount]
      | succ left =>
        simp [attemptsEvents_cons hconcludes.nonempty, turnCount]

theorem typedAttemptDependencies_eq_ok {deps attemptDeps : ExecutionDependencies}
    {result : ResultModel} (h : typedAttemptDependencies deps result = .ok attemptDeps) :
    result.HasObjectSchema ∧
      ToolExecutor.create deps.toolExecutor.lower
          (deps.toolExecutor.tools ++ [result.completeDefinition, failTool])
        = .ok attemptDeps.toolExecutor := by
  obtain ⟨complete, hcomplete, h⟩ := except_bind_eq_ok.mp h
  obtain ⟨hobject, rfl⟩ := completeTool_eq_ok.mp hcomplete
  obtain ⟨executor, hcreate, hdeps⟩ := except_bind_eq_ok.mp h
  obtain rfl := Except.ok.inj hdeps
  exact ⟨hobject, hcreate⟩

theorem executeTyped_adds (deps : ExecutionDependencies) (result : ResultModel)
    {script : PromptScript}
    (h : ∀ attempt ∈ script.attempts, ∀ turn ∈ attempt.turns, env.Admits turn) :
    Effect.Adds runMeter (executeTyped deps result script)
      (fun outcome added => ∃ (executor : ToolExecutor) (attempts : List AttemptLog),
        ToolExecutor.create deps.toolExecutor.lower
          (deps.toolExecutor.tools ++ [result.completeDefinition, failTool]) = .ok executor ∧
        Concludes (MAX_RESULT_FOLLOW_UPS + 1) attempts outcome ∧
        (∀ attempt ∈ attempts, attempt.Ran executor env) ∧
        added = ⟨attemptsEvents attempts, turnCount attempts⟩)
      fun _ added => CutAttempts env (MAX_RESULT_FOLLOW_UPS + 1) added := by
  have hdeps : Effect.Adds runMeter
      (Effect.lift fun _ => (typedAttemptDependencies deps result).mapError .raised :
        AgentRun ExecutionDependencies)
      (fun attemptDeps added => added = {} ∧
        typedAttemptDependencies deps result = .ok attemptDeps)
      fun _ added => CutAttempts env (MAX_RESULT_FOLLOW_UPS + 1) added := by
    refine .lift (fun _ attemptDeps hok => ⟨rfl, ?_⟩) fun _ _ _ => .of_nil env (Nat.succ_pos _)
    cases hcreate : typedAttemptDependencies deps result with
    | error error => simp [hcreate, Except.mapError] at hok
    | ok _ => simpa [hcreate, Except.mapError] using hok
  refine hdeps.bind ?_
  rintro attemptDeps _ ⟨rfl, hok⟩
  refine (typedAttempts_adds attemptDeps env _ _ h).weaken ?_ ?_
  · rintro outcome _ ⟨attempts, hconcludes, hrans, rfl⟩
    exact ⟨_, attempts, (typedAttemptDependencies_eq_ok hok).2, hconcludes, hrans, by simp⟩
  · rintro - added hcut
    simpa [CutAttempts] using hcut

theorem executePlain_adds (deps : ExecutionDependencies) {script : PromptScript}
    (h : ∀ attempt ∈ script.attempts, ∀ turn ∈ attempt.turns, env.Admits turn) :
    Effect.Adds runMeter (executePlain deps script)
      (fun _ added => ∃ attempt : AttemptLog, attempt.Ran deps.toolExecutor env ∧
        added = ⟨attempt.events, attempt.turns.length⟩)
      fun _ added => CutAttempts env 1 added := by
  have hfirst : ∀ turn ∈ (script.attempts.headD {}).turns, env.Admits turn := by
    cases hattempts : script.attempts with
    | nil => simp
    | cons attempt _ => exact h attempt (by simp [hattempts])
  refine (runAttempt_adds deps hfirst Nat.one_pos).bind ?_
  rintro result _ ⟨attempt, hran, -, rfl⟩
  exact .pure ⟨attempt, hran, by simp⟩

/-- How many attempts a prompt may take. -/
def attemptLimit (result : Option ResultModel) : Nat :=
  if result.isSome then MAX_RESULT_FOLLOW_UPS + 1 else 1

theorem CutAttempts.of_ran {attempts : List AttemptLog} (hnonempty : attempts ≠ []) {limit : Nat}
    (hlimit : attempts.length ≤ limit) (hrans : ∀ attempt ∈ attempts, attempt.Ran executor env)
    {requests : Nat} : CutAttempts env limit ⟨attemptsEvents attempts, requests⟩ :=
  ⟨attempts, hnonempty, hlimit, fun attempt hattempt => (hrans attempt hattempt).shaped,
    List.prefix_rfl⟩

theorem Concludes.length_le {left : Nat} {attempts : List AttemptLog} {outcome : RunOutcome}
    (h : Concludes left attempts outcome) : attempts.length ≤ left := by
  induction h with
  | exhausted => exact Nat.le_refl 0
  | decided => simp
  | missed _ _ ih => simpa using ih

/-- **However a prompt ends**, it adds a prefix of the events of its attempts. -/
theorem executePrompt_adds (deps : ExecutionDependencies)
    (result : Option ResultModel) {script : PromptScript}
    (h : ∀ attempt ∈ script.attempts, ∀ turn ∈ attempt.turns, env.Admits turn) :
    Effect.Adds runMeter (executePrompt deps result script)
      (fun _ added => CutAttempts env (attemptLimit result) added)
      fun _ added => CutAttempts env (attemptLimit result) added := by
  unfold executePrompt
  split
  next => exact .raise (.of_nil env (by cases result <;> simp [attemptLimit]))
  next =>
    split
    next =>
      refine (executePlain_adds deps h).weaken ?_ fun _ _ => id
      rintro - _ ⟨attempt, hran, rfl⟩
      exact @CutAttempts.of_ran _ env [attempt] (by simp) 1 Nat.le.refl (by simpa using hran) _
    next result =>
      refine (executeTyped_adds deps result h).weaken ?_ fun _ _ => id
      rintro outcome _ ⟨executor, attempts, -, hconcludes, hrans, rfl⟩
      exact .of_ran hconcludes.nonempty hconcludes.length_le hrans

end Execution

/-! ## Runs -/

/-- The log and the requests of a run are what its prompt added. -/
theorem PromptRun.executed_adds (run : PromptRun) {Q : RunOutcome → RunOutput → Prop}
    {E : Interrupt → RunOutput → Prop}
    (h : Effect.Adds runMeter (executePrompt run.dependencies run.result run.script) Q E) :
    ∃ added : RunOutput, run.log = .runStart :: added.events ∧
      run.executed.2.requests.length = added.requests ∧
      (∀ outcome, run.executed.1 = .ok outcome → Q outcome added) ∧
      ∀ interrupt, run.executed.1 = .error interrupt → E interrupt added := by
  obtain ⟨added, ⟨hevents, hrequests⟩, hend⟩ := h
    { execution := .init run.record run.committedHistory }
  refine ⟨added, hevents, ?_, fun outcome hok => ?_, fun interrupt herror => ?_⟩
  · exact hrequests.trans (Nat.zero_add _)
  · rw [PromptRun.executed] at hok
    simpa [hok] using hend
  · rw [PromptRun.executed] at herror
    simpa [herror] using hend

end Tile
