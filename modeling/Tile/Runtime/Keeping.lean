import Tile.Runtime.Execution

/-!
# Runtime/Keeping — invariants of prompt runs

A prompt run acts on what it drives in two ways: it emits events, and it asks the provider.  A
message that it completes is what a done event of its streams shows, and what it asks with is what
its attempts compose.  **What both ways keep, the whole run keeps**, wherever it stops
(`Live.Invariant.executed`).
-/

namespace Tile

/-- A turn that the event completes shows a done event with `P`. -/
def AgentEvent.Shows (P : StreamDoneEvent → Prop) (event : AgentEvent) : Prop :=
  ∀ turn, event = .messageEnd turn → turn.status = .completed →
    ∃ done, P done ∧ turn = .fromStreamDone done

/-- `I` is kept by runs whose streams end with done events with `P`, and which ask with
instructions and tools with `Q`. -/
structure Live.Invariant (P : StreamDoneEvent → Prop) (Q : String → List ToolDefinition → Prop)
    (I : Live → Prop) : Prop where
  emit : ∀ {event : AgentEvent} {live : Live}, event.Shows P → I live → I (live.emit event)
  request : ∀ {history : List ConversationItem} {instructions : String}
    {tools : List ToolDefinition} {live : Live}, Q instructions tools → I live →
      I (live.request history instructions tools)

/-- The dependencies of the run's attempts. -/
def PromptRun.attemptDependencies (run : PromptRun) : Except PyException ExecutionDependencies :=
  match run.result with
  | none => .ok run.dependencies
  | some result => typedAttemptDependencies run.dependencies result

/-- The streams of the run end with done events that have `P`, if they do. -/
def PromptRun.Ends (run : PromptRun) (P : StreamDoneEvent → Prop) : Prop :=
  ∀ attempt ∈ run.script.attempts, ∀ script ∈ attempt.turns, ∀ done, .done done ∈ script.events →
    P done

/-- What the run asks the provider with has `Q`. -/
def PromptRun.Asks (run : PromptRun) (Q : String → List ToolDefinition → Prop) : Prop :=
  ∀ deps, run.attemptDependencies = .ok deps → ∀ attempt ∈ run.script.attempts, ∀ instructions,
    attempt.systemPrompt deps.instructions = .ok instructions →
      Q instructions deps.toolExecutor.tools

namespace Live.Invariant

variable {P : StreamDoneEvent → Prop} {Q : String → List ToolDefinition → Prop} {I : Live → Prop}

theorem keeps_emit (hI : Invariant P Q I) {event : AgentEvent} (h : event.Shows P) :
    Effect.Keeps I (Tile.emit event) :=
  Effect.Keeps.modify fun _ => hI.emit h

/-- An event that ends no message shows no turn. -/
theorem keeps_emit_of_ne (hI : Invariant P Q I) {event : AgentEvent}
    (h : ∀ turn, event ≠ .messageEnd turn) : Effect.Keeps I (Tile.emit event) :=
  hI.keeps_emit fun turn hturn _ => absurd hturn (h turn)

theorem keeps_executeTools (hI : Invariant P Q I) (executor : ToolExecutor) :
    ∀ (calls : List ToolCallBlock) (answers : List ToolAnswer),
      Effect.Keeps I (executeTools executor calls answers)
  | [], _ => .pure
  | call :: rest, answers => by
    have hcall : Effect.Keeps I
        (executeTool executor call (answers.headD (.escapes .pending))) :=
      Effect.Keeps.bind (hI.keeps_emit_of_ne (by simp)) fun _ => Effect.Keeps.bind .lift fun _ =>
        Effect.Keeps.bind (hI.keeps_emit_of_ne (by simp)) fun _ => .pure
    exact hcall.bind fun _ => (hI.keeps_executeTools executor rest answers.tail).bind fun _ => .pure

theorem keeps_handleStreamEvent (hI : Invariant P Q I) (executor : ToolExecutor)
    (answers : List ToolAnswer) {event : ProviderStreamEvent}
    (h : ∀ done, event = .done done → P done) :
    Effect.Keeps I (handleStreamEvent executor answers event) := by
  cases event with
  | streamStart _ _ =>
    exact Effect.Keeps.bind (hI.keeps_emit_of_ne (by simp)) fun _ =>
      Effect.Keeps.bind (hI.keeps_emit_of_ne (by simp)) fun _ => .pure
  | update _ => exact Effect.Keeps.bind (hI.keeps_emit_of_ne (by simp)) fun _ => .pure
  | done done =>
    have hshows : (AgentEvent.messageEnd (.fromStreamDone done)).Shows P := fun turn hturn _ =>
      ⟨done, h done rfl, (AgentEvent.messageEnd.inj hturn).symm⟩
    have hdone : Effect.Keeps I (handleStreamDoneEvent executor answers done) :=
      Effect.Keeps.bind (hI.keeps_emit hshows) fun _ =>
        (hI.keeps_executeTools executor _ answers).bind fun _ =>
          Effect.Keeps.bind (hI.keeps_emit_of_ne (by simp)) fun _ => .pure
    exact hdone.bind fun _ => .pure
  | error error =>
    refine Effect.Keeps.bind (hI.keeps_emit fun turn hturn hcompleted => ?_) fun _ => .raise
    obtain rfl := AgentEvent.messageEnd.inj hturn
    exact absurd hcompleted (AssistantTurn.fromStreamError_status_ne error)

theorem keeps_consumeStream (hI : Invariant P Q I) (executor : ToolExecutor)
    (script : TurnScript) : ∀ {events : List ProviderStreamEvent},
      (∀ done, .done done ∈ events → P done) →
        Effect.Keeps I (consumeStream executor script events)
  | [], _ => Effect.Keeps.lift.bind fun _ => .pure
  | event :: rest, h => by
    have hevent : ∀ last, event = .done last → P last := by
      rintro last rfl
      exact h last List.mem_cons_self
    refine (hI.keeps_handleStreamEvent executor script.tools hevent).bind fun result => ?_
    cases result with
    | some _ => exact .pure
    | none =>
      exact hI.keeps_consumeStream executor script fun last hlast => h last (.tail _ hlast)

theorem keeps_aclosing {α : Type} {closing : Except Interrupt Unit} {body : AgentRun α}
    (h : Effect.Keeps I body) : Effect.Keeps I (aclosing closing body) := by
  intro live hlive
  have hbody := h live hlive
  rw [aclosing]
  rcases hrun : body live with ⟨result, live'⟩
  rw [hrun] at hbody
  rcases result with (error | cancelled | pending) | value <;> cases closing <;> exact hbody

theorem keeps_runProviderTurn (hI : Invariant P Q I) (executor : ToolExecutor)
    (history : List ConversationItem) {instructions : String}
    (hasks : Q instructions executor.tools) {script : TurnScript}
    (h : ∀ done, .done done ∈ script.events → P done) :
    Effect.Keeps I (runProviderTurn executor instructions history script) := by
  refine Effect.Keeps.bind (Effect.Keeps.modify fun _ => hI.request hasks) fun _ =>
    Effect.Keeps.bind .lift fun _ =>
      (keeps_aclosing (hI.keeps_consumeStream executor script h)).bind fun result => ?_
  cases result with
  | some _ => exact .pure
  | none => exact .raise

theorem keeps_runAgentLoop (hI : Invariant P Q I) (executor : ToolExecutor)
    {instructions : String} : ∀ {turns : List TurnScript} (history : List ConversationItem)
      (toolExecutions : List ToolExecutionOutcome),
      (turns ≠ [] → Q instructions executor.tools) →
      (∀ script ∈ turns, ∀ done, .done done ∈ script.events → P done) →
      Effect.Keeps I (runAgentLoop executor instructions turns history toolExecutions)
  | [], _, _, _, _ => .raise
  | script :: rest, history, toolExecutions, hasks, h => by
    have hasks' : Q instructions executor.tools := hasks (List.cons_ne_nil _ _)
    obtain ⟨hscript, hrest⟩ := List.forall_mem_cons.mp h
    refine (hI.keeps_runProviderTurn executor history hasks' hscript).bind fun result => ?_
    dsimp only
    split
    · exact hI.keeps_runAgentLoop executor _ _ (fun _ => hasks') hrest
    · exact .pure

theorem keeps_runAttempt (hI : Invariant P Q I) (deps : ExecutionDependencies)
    {script : AttemptScript}
    (hasks : script.turns ≠ [] → ∀ instructions,
      script.systemPrompt deps.instructions = .ok instructions →
        Q instructions deps.toolExecutor.tools)
    (h : ∀ turn ∈ script.turns, ∀ done, .done done ∈ turn.events → P done) :
    Effect.Keeps I (runAttempt deps script) := by
  refine Effect.Keeps.lift_bind fun instructions _ hcomposed =>
    Effect.Keeps.bind (hI.keeps_emit_of_ne (by simp)) fun _ =>
      Effect.Keeps.bind .gets fun history =>
        Effect.Keeps.bind (hI.keeps_runAgentLoop deps.toolExecutor history [] (fun hturns => ?_) h)
          fun _ => Effect.Keeps.bind (hI.keeps_emit_of_ne (by simp)) fun _ => .pure
  exact hasks hturns instructions (mapError_eq_ok hcomposed)

/-- What the attempt asks with has `Q`, and its streams end with `P`. -/
structure Attempted (P : StreamDoneEvent → Prop) (Q : String → List ToolDefinition → Prop)
    (deps : ExecutionDependencies) (script : AttemptScript) : Prop where
  asks : ∀ instructions, script.systemPrompt deps.instructions = .ok instructions →
    Q instructions deps.toolExecutor.tools
  ends : ∀ turn ∈ script.turns, ∀ done, .done done ∈ turn.events → P done

/-- The next attempt, which does nothing when the environment's script is over. -/
theorem keeps_next (hI : Invariant P Q I) {deps : ExecutionDependencies}
    {scripts : List AttemptScript} (h : ∀ script ∈ scripts, Attempted P Q deps script) :
    Effect.Keeps I (runAttempt deps (scripts.headD {})) := by
  cases scripts with
  | nil => exact hI.keeps_runAttempt deps (fun hturns => absurd rfl hturns) (by simp)
  | cons script rest =>
    have hscript := h script List.mem_cons_self
    exact hI.keeps_runAttempt deps (fun _ => hscript.asks) hscript.ends

theorem keeps_typedAttempts (hI : Invariant P Q I) (deps : ExecutionDependencies) (left : Nat)
    {scripts : List AttemptScript} (h : ∀ script ∈ scripts, Attempted P Q deps script) :
    Effect.Keeps I (typedAttempts deps left scripts) := by
  induction left generalizing scripts with
  | zero => exact .pure
  | succ left ih =>
    refine (hI.keeps_next h).bind fun result => ?_
    cases resultOutcome result.toolExecutions with
    | some outcome => exact .pure
    | none =>
      have hfollowUp : Effect.Keeps I (emitFollowUp left) := by
        rw [emitFollowUp]
        split
        · exact hI.keeps_emit_of_ne (by simp)
        · exact .pure
      exact hfollowUp.bind fun _ => ih fun script hscript => h script (List.mem_of_mem_tail hscript)

/-- **What events and requests keep, a prompt run keeps.** -/
theorem executed (hI : Invariant P Q I) {run : PromptRun} (hends : run.Ends P)
    (hasks : run.Asks Q) (hinit : I { execution := .init run.record run.committedHistory }) :
    I run.executed.2 := by
  have hattempted : ∀ deps, run.attemptDependencies = .ok deps →
      ∀ script ∈ run.script.attempts, Attempted P Q deps script := fun deps hdeps script hscript =>
    ⟨hasks deps hdeps script hscript, hends script hscript⟩
  have hkeeps : Effect.Keeps I (executePrompt run.dependencies run.result run.script) := by
    unfold executePrompt
    unfold PromptRun.attemptDependencies at hattempted
    split
    · exact .raise
    · cases hresult : run.result with
      | none =>
        rw [hresult] at hattempted
        exact (hI.keeps_next (hattempted _ rfl)).bind fun _ => .pure
      | some result =>
        rw [hresult] at hattempted
        exact Effect.Keeps.lift_bind fun deps _ hdeps =>
          hI.keeps_typedAttempts deps _ (hattempted deps (mapError_eq_ok hdeps))
  exact hkeeps.apply hinit

end Live.Invariant

end Tile
