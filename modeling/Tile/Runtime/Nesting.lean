import Mathlib.Data.Set.List
import Tile.Library.Brackets
import Tile.Runtime.Durability
import Tile.Runtime.RunLog

/-!
# Runtime/Nesting — every run log is well nested

    run     = RunStart attempt (ResultFollowUp attempt)* (RunEnd | RunFault)
    attempt = AgentStart turn+ AgentEnd
    turn    = TurnStart MessageStart MessageUpdate* MessageEnd tool* TurnEnd
    tool    = ToolExecutionStart(c) ToolExecutionEnd(c)

A run that is left puts its terminal event after a prefix of such a word.  The grammar is stated on
events alone; the tree of `Runtime/RunLog` is what is matched with it.
-/

namespace Tile

/-! ## The grammar -/

/-- Tool scopes, one after the other, and their outcomes. -/
inductive ToolsWord : List AgentEvent → List ToolExecutionOutcome → Prop where
  | nil : ToolsWord [] []
  | cons {callId toolName : String} {arguments : JsonObject} {outcome : ToolExecutionOutcome}
      {rest : List AgentEvent} {outcomes : List ToolExecutionOutcome} :
      outcome.toolResultTurn.callId = callId → ToolsWord rest outcomes →
      ToolsWord
        (.toolExecutionStart callId toolName arguments :: .toolExecutionEnd outcome :: rest)
        (outcome :: outcomes)

/-- A turn.  Its end lists the outcomes of its tool scopes, in order. -/
inductive TurnWord : List AgentEvent → Prop where
  | mk {responseId : Option String} {updates : List StreamUpdateEvent} {turn : AssistantTurn}
      {tools : List AgentEvent} {outcomes : List ToolExecutionOutcome} : ToolsWord tools outcomes →
      TurnWord ([.turnStart, .messageStart responseId] ++ updates.map .messageUpdate ++
        [.messageEnd turn] ++ tools ++ [.turnEnd turn outcomes])

/-- One or more turns. -/
inductive TurnsWord : List AgentEvent → Prop where
  | last {word : List AgentEvent} : TurnWord word → TurnsWord word
  | cons {word rest : List AgentEvent} : TurnWord word → TurnsWord rest → TurnsWord (word ++ rest)

/-- The events of an attempt. -/
inductive AttemptWord : List AgentEvent → Prop where
  | mk {turns : List AgentEvent} : TurnsWord turns →
      AttemptWord ([.agentStart] ++ turns ++ [.agentEnd])

/-- The attempts of a run, with so many follow-ups between them. -/
inductive AttemptsWord : Nat → List AgentEvent → Prop where
  | last {word : List AgentEvent} : AttemptWord word → AttemptsWord 0 word
  | followUp {word rest : List AgentEvent} {message : UserMessage} {count : Nat} :
      AttemptWord word → AttemptsWord count rest →
      AttemptsWord (count + 1) (word ++ [.resultFollowUp message] ++ rest)

/-! ## The brackets of a log -/

/-- What is opened and closed in a log. -/
inductive LogBracket where
  | agent | turn | message
  | tool (callId : String)
  deriving DecidableEq

/-- Which events open what, and which close it. -/
def logBrackets : Brackets AgentEvent LogBracket where
  opens
    | .agentStart => some .agent
    | .turnStart => some .turn
    | .messageStart _ => some .message
    | .toolExecutionStart callId _ _ => some (.tool callId)
    | _ => none
  closes
    | .agentEnd => some .agent
    | .turnEnd _ _ => some .turn
    | .messageEnd _ => some .message
    | .toolExecutionEnd outcome => some (.tool outcome.toolResultTurn.callId)
    | _ => none

/-- The event of a follow-up. -/
def AgentEvent.isFollowUp : AgentEvent → Bool
  | .resultFollowUp _ => true
  | _ => false

/-- The tools of a turn open and close in themselves. -/
theorem ToolsWord.balanced {word : List AgentEvent} {outcomes : List ToolExecutionOutcome}
    (h : ToolsWord word outcomes) : logBrackets.Balanced word := by
  induction h with
  | nil => exact .nil
  | @cons callId toolName arguments outcome rest outcomes hpaired _ ih =>
    have hscope : logBrackets.Balanced
        ([.toolExecutionStart callId toolName arguments] ++ [] ++ [.toolExecutionEnd outcome]) :=
      .wrap rfl rfl rfl (by simp [logBrackets, hpaired]) .nil
    exact hscope.append ih

/-- So does a turn. -/
theorem TurnWord.balanced {word : List AgentEvent} (h : TurnWord word) :
    logBrackets.Balanced word := by
  obtain @⟨responseId, updates, turn, tools, outcomes, htools⟩ := h
  have hupdates : logBrackets.Balanced (updates.map AgentEvent.messageUpdate) := by
    rw [List.map_eq_flatMap]
    exact .flatMap fun _ _ => .letter rfl rfl
  have hmessage : logBrackets.Balanced
      (.messageStart responseId :: (updates.map .messageUpdate ++ [.messageEnd turn])) :=
    .wrap rfl rfl rfl rfl hupdates
  have hturn : logBrackets.Balanced (.turnStart :: ((.messageStart responseId ::
      (updates.map .messageUpdate ++ [.messageEnd turn])) ++ tools ++ [.turnEnd turn outcomes])) :=
    .wrap rfl rfl rfl rfl (hmessage.append htools.balanced)
  simpa using hturn

/-- So do the turns of an attempt. -/
theorem TurnsWord.balanced {word : List AgentEvent} (h : TurnsWord word) :
    logBrackets.Balanced word := by
  induction h with
  | last hturn => exact hturn.balanced
  | cons hturn _ ih => exact hturn.balanced.append ih

/-- So does an attempt. -/
theorem AttemptWord.balanced {word : List AgentEvent} (h : AttemptWord word) :
    logBrackets.Balanced word := by
  obtain ⟨hturns⟩ := h
  exact .wrap rfl rfl rfl rfl hturns.balanced

/-- So do attempts, whatever follow-ups are between them. -/
theorem AttemptsWord.balanced {count : Nat} {word : List AgentEvent} (h : AttemptsWord count word) :
    logBrackets.Balanced word := by
  induction h with
  | last hattempt => exact hattempt.balanced
  | followUp hattempt _ ih => exact (hattempt.balanced.append (.letter rfl rfl)).append ih

/-- The event is of an attempt: neither of the run itself nor between two attempts. -/
def AgentEvent.isInner (event : AgentEvent) : Bool := !event.isLifecycle && !event.isFollowUp

theorem ToolsWord.inner {word : List AgentEvent} {outcomes : List ToolExecutionOutcome}
    (h : ToolsWord word outcomes) : ∀ event ∈ word, event.isInner = true := by
  induction h with
  | nil => simp
  | cons _ _ ih => simpa [AgentEvent.isInner, AgentEvent.isLifecycle, AgentEvent.isTerminal,
      AgentEvent.isFollowUp] using ih

theorem TurnWord.inner {word : List AgentEvent} (h : TurnWord word) :
    ∀ event ∈ word, event.isInner = true := by
  obtain ⟨htools⟩ := h
  have hinner := htools.inner
  intro event hevent
  simp only [List.mem_append, List.mem_cons, List.mem_map, List.not_mem_nil, or_false] at hevent
  obtain ((((rfl | rfl) | ⟨_, -, rfl⟩) | rfl) | htool) | rfl := hevent
  case inl.inr => exact hinner event htool
  all_goals rfl

theorem TurnsWord.inner {word : List AgentEvent} (h : TurnsWord word) :
    ∀ event ∈ word, event.isInner = true := by
  induction h with
  | last hturn => exact hturn.inner
  | cons hturn _ ih => exact List.forall_mem_append.mpr ⟨hturn.inner, ih⟩

theorem AttemptWord.inner {word : List AgentEvent} (h : AttemptWord word) :
    ∀ event ∈ word, event.isInner = true := by
  obtain ⟨hturns⟩ := h
  refine List.forall_mem_append.mpr ⟨List.forall_mem_append.mpr ⟨?_, hturns.inner⟩, ?_⟩
  · exact List.forall_mem_singleton.mpr rfl
  · exact List.forall_mem_singleton.mpr rfl

/-- No attempt has an event of the run's own lifecycle. -/
theorem AttemptsWord.isLifecycle {count : Nat} {word : List AgentEvent}
    (h : AttemptsWord count word) : ∀ event ∈ word, event.isLifecycle = false := by
  have hattempt : ∀ {word : List AgentEvent}, AttemptWord word →
      ∀ event ∈ word, event.isLifecycle = false := fun hword event hevent => by
    have hinner := hword.inner event hevent
    rw [AgentEvent.isInner, Bool.and_eq_true, Bool.not_eq_true'] at hinner
    exact hinner.1
  induction h with
  | last hword => exact hattempt hword
  | followUp hword _ ih =>
    refine List.forall_mem_append.mpr ⟨List.forall_mem_append.mpr ⟨hattempt hword, ?_⟩, ih⟩
    exact List.forall_mem_singleton.mpr rfl

/-- The follow-ups of a word of attempts. -/
theorem AttemptsWord.countP_isFollowUp {count : Nat} {word : List AgentEvent}
    (h : AttemptsWord count word) : word.countP (·.isFollowUp) = count := by
  have hattempt : ∀ {word : List AgentEvent}, AttemptWord word →
      word.countP (·.isFollowUp) = 0 := fun hword => by
    refine List.countP_eq_zero.mpr fun event hevent => ?_
    have hinner := hword.inner event hevent
    rw [AgentEvent.isInner, Bool.and_eq_true, Bool.not_eq_true'] at hinner
    simpa using hinner.2
  induction h with
  | last hword => exact hattempt hword
  | followUp hword _ ih =>
    rw [List.countP_append, List.countP_append, hattempt hword, ih, Nat.zero_add, Nat.add_comm]
    rfl

/-! ## Trees and words -/

section Words

/-- What a stream shows that begins with its start event: the start, and updates. -/
def beginning : Environment where
  Opening opening := ∃ source responseId, ∃ updates : List StreamUpdateEvent,
    opening = .streamStart source responseId :: updates.map .update
  Allowed _ := True
  exists_opening := ⟨_, default, "", [], rfl⟩
  allowed_pending := trivial

/-- The stream begins with its start event, and shows no other. -/
def TurnScript.BeginsOnce (script : TurnScript) : Prop :=
  ∀ index event, script.events[index]? = some event →
    ((∃ source responseId, event = .streamStart source responseId) ↔ index = 0)

/-- The beginning of a stream that begins once opens as it should. -/
theorem opening_of_beginsOnce {script : TurnScript} (h : script.BeginsOnce)
    {opening : List ProviderStreamEvent} (hstart : opening <+: script.events)
    (hopen : ∀ event ∈ opening, event.endsMessage = false) (hne : opening ≠ []) :
    beginning.Opening opening := by
  obtain ⟨rest, hrest⟩ := hstart
  have hindex : ∀ index event, opening[index]? = some event →
      ((∃ source responseId, event = .streamStart source responseId) ↔ index = 0) := by
    intro index event hevent
    have hlt := (List.getElem?_eq_some_iff.mp hevent).1
    exact h index event (by rw [← hrest, List.getElem?_append_left hlt, hevent])
  cases opening with
  | nil => exact absurd rfl hne
  | cons first updates =>
    obtain ⟨source, responseId, rfl⟩ := (hindex 0 first rfl).mpr rfl
    have hupdates : updates ∈ Set.range (List.map ProviderStreamEvent.update) := by
      rw [Set.range_list_map]
      intro event hevent
      obtain ⟨index, hget⟩ := List.mem_iff_getElem?.mp hevent
      have hstart := hindex (index + 1) event (by simpa using hget)
      have hends := hopen event (List.mem_cons_of_mem _ hevent)
      cases event with
      | streamStart source responseId =>
        exact absurd (hstart.mp ⟨source, responseId, rfl⟩) (Nat.succ_ne_zero _)
      | update event => exact ⟨event, rfl⟩
      | done _ | error _ => simp [ProviderStreamEvent.endsMessage] at hends
    obtain ⟨updates, rfl⟩ := hupdates
    exact ⟨source, responseId, updates, rfl⟩

theorem beginning_admits {script : TurnScript} (h : script.BeginsOnce) :
    beginning.Admits script where
  opens := {
    ended := by
      intro opening last hstart hopen hlast
      refine opening_of_beginsOnce h ((List.prefix_append _ _).trans hstart) hopen ?_
      rintro rfl
      obtain ⟨rest, hrest⟩ := hstart
      obtain ⟨_, _, rfl⟩ := (h 0 last (by simp [← hrest])).mpr rfl
      simp [ProviderStreamEvent.endsMessage] at hlast
    cut := by
      intro opening hstart hopen
      by_cases hne : opening = []
      · exact ⟨_, hne ▸ List.nil_prefix, default, "", [], rfl⟩
      · exact ⟨opening, List.prefix_rfl, opening_of_beginsOnce h hstart hopen hne⟩ }
  allowed := fun _ _ => trivial

/-- Paired scopes make the word of the tools. -/
theorem toolsWord_of_paired {scopes : List ToolScope} (h : ∀ scope ∈ scopes, scope.Paired) :
    ToolsWord (scopes.flatMap ToolScope.events) (scopes.map (·.outcome)) := by
  induction scopes with
  | nil => exact .nil
  | cons scope scopes ih =>
    exact .cons (h scope (by simp)) (ih fun other hother => h other (by simp [hother]))

/-- A turn of the right shape makes the word of a turn. -/
theorem TurnLog.Shaped.word {turn : TurnLog} (h : turn.Shaped beginning) :
    TurnWord turn.events := by
  obtain ⟨⟨source, responseId, updates, hopening⟩, hpaired⟩ := h
  have hword :=
    @TurnWord.mk (some responseId) updates turn.message _ _ (toolsWord_of_paired hpaired)
  have hshown : (updates.map ProviderStreamEvent.update).flatMap ProviderStreamEvent.shown
      = updates.map .messageUpdate := by
    rw [List.flatMap_map, List.map_eq_flatMap]
    rfl
  simpa [TurnLog.events, turnTail, hopening, hshown, ProviderStreamEvent.shown] using hword

/-- Turns of the right shape make the word of turns. -/
theorem turnsWord_of_shaped {turns : List TurnLog} (hne : turns ≠ [])
    (h : ∀ turn ∈ turns, turn.Shaped beginning) : TurnsWord (turns.flatMap TurnLog.events) := by
  induction turns with
  | nil => exact absurd rfl hne
  | cons turn turns ih =>
    have hturn := (h turn (by simp)).word
    cases turns with
    | nil => simpa using TurnsWord.last hturn
    | cons next turns =>
      rw [List.flatMap_cons]
      exact .cons hturn (ih (by simp) fun other hother => h other (List.mem_cons_of_mem _ hother))

/-- An attempt of the right shape makes the word of an attempt. -/
theorem AttemptLog.Shaped.word {attempt : AttemptLog} (h : attempt.Shaped beginning) :
    AttemptWord attempt.events :=
  .mk (turnsWord_of_shaped h.nonempty h.turns)

/-- Attempts of the right shape make a word with a follow-up between any two. -/
theorem attemptsWord_of_shaped {attempts : List AttemptLog} (hne : attempts ≠ [])
    (h : ∀ attempt ∈ attempts, attempt.Shaped beginning) :
    AttemptsWord (attempts.length - 1) (attemptsEvents attempts) := by
  induction attempts with
  | nil => exact absurd rfl hne
  | cons attempt attempts ih =>
    have hattempt := (h attempt (by simp)).word
    cases attempts with
    | nil => exact .last hattempt
    | cons next attempts =>
      have hrest := ih (by simp) fun other hother => h other (List.mem_cons_of_mem _ hother)
      simpa [attemptsEvents, followUpEvent] using
        @AttemptsWord.followUp _ _ { content := RESULT_FOLLOW_UP } _ hattempt hrest

end Words

/-! ## The end of a log -/

namespace RunWorld

/-- The task of the run is over and left this log, which nothing but the event of the result is
added to. -/
structure Logged (log : List AgentEvent) (world : RunWorld) : Prop where
  ended : world.stage ≠ .executing
  before : world.stage ≠ .finalized →
    world.execution.wait = none ∧ world.execution.events = log
  after : world.stage = .finalized → ∃ result, world.execution.wait = some result ∧
    world.execution.events = log ++ [result.terminalEvent]

variable {log : List AgentEvent} {world : RunWorld}

/-- A step that leaves the execution its log, and does not finalize it. -/
theorem Logged.keep {world' : RunWorld} (h : world.Logged log) (hbefore : world.stage ≠ .finalized)
    (hended : world'.stage ≠ .executing) (hstage : world'.stage ≠ .finalized)
    (hwait : world'.execution.wait = world.execution.wait)
    (hevents : world'.execution.events = world.execution.events) : world'.Logged log where
  ended := hended
  before _ := by rw [hwait, hevents]; exact h.before hbefore
  after hfinalized := absurd hfinalized hstage

theorem stageAfterFinish_running (reply : Except PyError TerminalRun) :
    stageAfterFinish reply ≠ .executing ∧ stageAfterFinish reply ≠ .finalized := by
  unfold stageAfterFinish
  split <;> simp

/-- A step of the run or of another process keeps the log. -/
theorem Logged.act [JsonParser] (h : world.Logged log) (act : RunAct) :
    (world.act act).Logged log := by
  cases act with
  | other call ambient => exact ⟨h.ended, h.before, h.after⟩
  | emit event => rwa [RunWorld.act, if_neg fun hemit => h.ended hemit.1]
  | endTask taskEnd => rwa [RunWorld.act, if_neg h.ended]
  | finish ambient =>
    rw [RunWorld.act]
    split
    next taskEnd hstage =>
      obtain ⟨event, reply, db, -, -, -, heq⟩ := world.callFinish_eq taskEnd ambient
      have hrunning := stageAfterFinish_running reply
      rw [heq]
      exact h.keep (by simp [hstage]) hrunning.1 hrunning.2 rfl rfl
    next => exact h
  | read ambient =>
    rw [RunWorld.act]
    split
    next hstage =>
      obtain ⟨event, reply, db, -, -, -, heq⟩ := world.callRead_eq ambient
      rw [heq]
      exact h.keep (by simp [hstage]) (by simp) (by simp) rfl rfl
    next => exact h
  | conclude =>
    rw [RunWorld.act]
    split
    next result hstage =>
      have hevents := (h.before (by simp [hstage])).2
      refine ⟨by simp, by simp, fun _ => ⟨result, rfl, ?_⟩⟩
      simp [RunExecution.conclude, hevents]
    next => exact h

/-- Any steps keep the log. -/
theorem Logged.play [JsonParser] (h : world.Logged log) (schedule : List RunAct) :
    (world.play schedule).Logged log := by
  induction schedule generalizing world with
  | nil => exact h
  | cons act schedule ih => exact ih (h.act act)

end RunWorld

theorem PromptRun.wait_eq_none (run : PromptRun) : run.executed.2.execution.wait = none := by
  obtain ⟨inner, -, heq⟩ := executePrompt_emits run.dependencies run.result run.script
    { execution := .init run.record run.committedHistory }
  have hemitAll : ∀ (events : List AgentEvent) (execution : RunExecution),
      (execution.emitAll events).finalized = execution.finalized := by
    intro events
    induction events with
    | nil => exact fun _ => rfl
    | cons event events ih => exact fun execution => (ih _).trans (execution.emit_finalized event)
  rw [PromptRun.executed, heq, RunExecution.wait, hemitAll]
  rfl

/-! ## Nesting -/

/-- **The log of a run is well nested**: the start of the run, `inner`, and once the run is over the
event of its result. -/
structure PromptRun.WellNested [JsonParser] (run : PromptRun) (inner : List AgentEvent) : Prop where
  log : run.log = .runStart :: inner
  /-- A plain run has one attempt, a typed run at most nine. -/
  word : ∃ followUps word, AttemptsWord followUps word ∧ inner <+: word ∧ followUps ≤ 8 ∧
    (run.result = none → followUps = 0)
  /-- Nothing ends that is not open, innermost first. -/
  brackets : ∃ opened, logBrackets.read [] inner = some opened
  followUps : inner.countP (·.isFollowUp) ≤ 8
  inner : ∀ event ∈ inner, event.isLifecycle = false
  /-- However the task ended: whatever other processes do while the run is finalized. -/
  terminal : ∀ (world : RunWorld) (taskEnd : TaskEnd), world.execution = run.executed.2.execution →
    world.stage = .ended taskEnd → ∀ schedule,
      ((world.play schedule).execution.wait = none ∧
        (world.play schedule).execution.events = run.log) ∨
      ∃ result, (world.play schedule).execution.wait = some result ∧
        (world.play schedule).execution.events = run.log ++ [result.terminalEvent]

/-- A typed run whose first attempt forgets its result, and which is cancelled while a tool of the
second one runs. -/
def leftRun : PromptRun where
  record := ⟨"r", "s", "prompt", 2, "model", "provider"⟩
  committedHistory := []
  dependencies := {
    instructions := ""
    toolExecutor := ⟨id, [⟨"slow", fun arguments => .valid ⟨"Input", some arguments⟩, .user⟩]⟩ }
  result := some {
    validate := fun arguments => .valid ⟨"Result", some arguments⟩
    jsonSchema := .ok [("type", .str "object")]
    validationError := fun message => { typeName := "ValidationError", message } }
  script := { attempts := [
    { turns := [{ events := [.streamStart { provider := "p" } "a", .update (.textStart 0),
        .done ⟨{ provider := "p" }, none, .stop, [.text { text := "done" }]⟩] }] },
    { turns := [{
        events := [.streamStart { provider := "p" } "b",
          .done ⟨{ provider := "p" }, none, .toolUse,
            [.toolCall { callId := "c", name := "slow" }]⟩]
        tools := [.escapes .cancelled] }] }] }

end Tile
