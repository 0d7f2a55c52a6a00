import Tile.Runtime.Nesting

/-!
# Runtime/ResultContract — how typed runs end

A typed run is asked for a result until an attempt decides one, nine times at most.  What decides is
the *call*: the first one that resolves to the complete or the fail tool and passes its validation
(`ToolExecutor.verdict`).  Terminate flags and details only carry that decision outwards.
-/

namespace Tile

/-- What a call decides: a call of the complete tool by the value its arguments validate to, a call
of the fail tool by its reason. -/
def ToolExecutor.verdict (executor : ToolExecutor) (result : ResultModel)
    (call : ToolCallBlock) : Option RunOutcome :=
  match (executor.getTool call.name).map ToolDefinition.fn with
  | some .complete => match result.validate call.arguments with
    | .valid params => some (.completed (.model params))
    | .invalid _ | .raises _ => none
  | some .fail => match failTool.validate call.arguments with
    | .valid params => some (.failed (.agentFailure (failReason params)))
    | .invalid _ | .raises _ => none
  | some .user | none => none

/-- The tool calls of an attempt, in order. -/
def AttemptLog.calls (attempt : AttemptLog) : List ToolCallBlock :=
  attempt.turns.flatMap fun turn => turn.scopes.map (·.call)

/-- What the first call decides that decides anything. -/
def AttemptLog.verdict (executor : ToolExecutor) (result : ResultModel)
    (attempt : AttemptLog) : Option RunOutcome :=
  attempt.calls.findSome? (executor.verdict result)

/-- The tool answers with details of its own type, if any. -/
def ToolAnswer.OwnDetails : ToolAnswer → Prop
  | .returns result => (∀ value, result.details ≠ some (.complete value)) ∧
      ∀ reason, result.details ≠ some (.fail reason)
  | .toolError _ _ | .raises _ | .escapes _ => True

/-- User tools return details of their own types. -/
def ownDetails : Environment where
  Opening _ := True
  Allowed := ToolAnswer.OwnDetails
  exists_opening := ⟨[], trivial⟩
  allowed_pending := trivial

theorem ownDetails_admits {script : TurnScript} (h : ∀ answer ∈ script.tools, answer.OwnDetails) :
    ownDetails.Admits script :=
  ⟨⟨fun _ _ _ _ _ => trivial, fun opening _ _ => ⟨opening, List.prefix_rfl, trivial⟩⟩, h⟩

/-! ## What an execution decides -/

/-- What `_result_outcome` reads off one execution. -/
def ToolExecutionOutcome.decides (execution : ToolExecutionOutcome) : Option RunOutcome :=
  resultOutcome [execution]

theorem resultOutcome_eq_findSome? (executions : List ToolExecutionOutcome) :
    resultOutcome executions = executions.findSome? (·.decides) := by
  induction executions with
  | nil => rfl
  | cons execution executions ih =>
    rw [List.findSome?_cons, ← ih, ToolExecutionOutcome.decides]
    unfold resultOutcome
    rw [List.findSome?_cons, List.findSome?_singleton]

theorem ToolExecutionOutcome.decides_eq_none {execution : ToolExecutionOutcome}
    (h : execution.terminate = false) : execution.decides = none := by
  simp [decides, resultOutcome, h]

/-- A typed prompt's executor: the user's tools, then those of the output contract. -/
structure ToolExecutor.Typed (executor : ToolExecutor) (result : ResultModel) :
    Prop where
  complete : ∀ tool ∈ executor.tools, tool.fn = .complete → tool = result.completeDefinition
  fail : ∀ tool ∈ executor.tools, tool.fn = .fail → tool = failTool

theorem ToolExecutor.create_eq_ok {lower : String → String} {tools : List ToolDefinition}
    {executor : ToolExecutor} (h : create lower tools = .ok executor) :
    executor = { lower, tools } := by
  simp only [create] at h
  split at h
  · cases h
  · exact (Except.ok.inj h).symm

theorem ToolExecutor.typed_of_create {lower : String → String} {tools : List ToolDefinition}
    {result : ResultModel} {executor : ToolExecutor}
    (h : create lower (tools ++ [result.completeDefinition, failTool]) = .ok executor)
    (huser : ∀ tool ∈ tools, tool.fn = .user) : executor.Typed result := by
  obtain rfl := create_eq_ok h
  constructor
  · intro tool htool hfn
    rcases List.mem_append.mp htool with htool | htool
    · cases (huser tool htool).symm.trans hfn
    · obtain rfl | rfl : tool = result.completeDefinition ∨ tool = failTool := by simpa using htool
      · rfl
      · cases hfn
  · intro tool htool hfn
    rcases List.mem_append.mp htool with htool | htool
    · cases (huser tool htool).symm.trans hfn
    · obtain rfl | rfl : tool = result.completeDefinition ∨ tool = failTool := by simpa using htool
      · cases hfn
      · rfl

section Executions

variable {executor : ToolExecutor} {result : ResultModel}

theorem fromError_decides (callId toolName message : String) (details : Option ToolDetails) :
    (ToolExecutionOutcome.fromError callId toolName message details).decides = none :=
  ToolExecutionOutcome.decides_eq_none rfl

/-- Details of its own type decide nothing, whatever the terminate flag. -/
theorem fromResult_decides_of_ownDetails {callId toolName : String} {toolResult : ToolResult}
    (h : (ToolAnswer.returns toolResult).OwnDetails) :
    (ToolExecutionOutcome.fromResult callId toolName toolResult).decides = none := by
  obtain ⟨hcomplete, hfail⟩ := h
  simp only [ToolExecutionOutcome.decides, resultOutcome, List.findSome?_singleton,
    ToolExecutionOutcome.fromResult]
  split <;> rfl

theorem ToolExecutor.getTool_mem {toolName : String} {tool : ToolDefinition}
    (h : executor.getTool toolName = some tool) : tool ∈ executor.tools :=
  List.mem_of_find?_eq_some h

/-- A call that its tool's validation rejects decides nothing. -/
theorem ToolExecutor.decides_of_rejected {scope : ToolScope} {tool : ToolDefinition}
    {answer : ToolAnswer} (htool : executor.getTool scope.call.name = some tool)
    (hrejected : ∀ params, tool.validate scope.call.arguments ≠ .valid params)
    (h : executor.execute scope.call.callId scope.call.name scope.call.arguments answer
      = .ok scope.outcome) : scope.outcome.decides = none := by
  cases hvalid : tool.validate scope.call.arguments with
  | valid params => exact absurd hvalid (hrejected params)
  | invalid _ | raises _ =>
    simp only [execute, callTool, htool, hvalid] at h
    rw [← Except.ok.inj h]
    exact fromError_decides _ _ _ _

/-- A call of a user tool decides nothing. -/
theorem ToolExecutor.decides_of_user {scope : ToolScope} {tool : ToolDefinition}
    {answer : ToolAnswer} (htool : executor.getTool scope.call.name = some tool)
    (hfn : tool.fn = .user) (hanswer : answer.OwnDetails)
    (h : executor.execute scope.call.callId scope.call.name scope.call.arguments answer
      = .ok scope.outcome) : scope.outcome.decides = none := by
  cases hvalid : tool.validate scope.call.arguments with
  | valid params =>
    simp only [execute, callTool, htool, hvalid, hfn] at h
    cases answer with
    | returns toolResult =>
      rw [← Except.ok.inj h]
      exact fromResult_decides_of_ownDetails hanswer
    | toolError _ _ | raises _ =>
      rw [← Except.ok.inj h]
      exact fromError_decides _ _ _ _
    | escapes _ => cases h
  | invalid _ | raises _ => exact executor.decides_of_rejected htool (by simp [hvalid]) h

/-- **An execution decides what its call does.** -/
theorem ToolScope.Ran.decides_eq {scope : ToolScope} (htyped : executor.Typed result)
    (h : scope.Ran executor ownDetails) :
    scope.outcome.decides = executor.verdict result scope.call := by
  obtain ⟨answer, hanswer, hexecute⟩ := h
  rw [ToolExecutor.verdict]
  cases htool : executor.getTool scope.call.name with
  | none =>
    simp only [ToolExecutor.execute, ToolExecutor.callTool, htool] at hexecute
    rw [← Except.ok.inj hexecute]
    exact fromError_decides _ _ _ _
  | some tool =>
    have hmem := executor.getTool_mem htool
    rw [Option.map_some]
    cases hfn : tool.fn with
    | complete =>
      obtain rfl := htyped.complete tool hmem hfn
      cases hvalid : result.validate scope.call.arguments with
      | valid params =>
        simp only [ToolExecutor.execute, ToolExecutor.callTool, htool,
          ResultModel.completeDefinition, hvalid] at hexecute
        rw [← Except.ok.inj hexecute]
        rfl
      | invalid _ | raises _ =>
        exact executor.decides_of_rejected htool
          (by simp [ResultModel.completeDefinition, hvalid]) hexecute
    | fail =>
      obtain rfl := htyped.fail tool hmem hfn
      cases hvalid : failTool.validate scope.call.arguments with
      | valid params =>
        simp only [ToolExecutor.execute, ToolExecutor.callTool, htool, hvalid] at hexecute
        rw [← Except.ok.inj hexecute]
        rfl
      | invalid _ | raises _ =>
        exact executor.decides_of_rejected htool (by simp [hvalid]) hexecute
    | user => exact executor.decides_of_user htool hfn hanswer hexecute

/-- An execution that failed does not end its attempt. -/
theorem ToolScope.Ran.terminate_of_isError {scope : ToolScope} (h : scope.Ran executor ownDetails)
    (herror : scope.outcome.toolResultTurn.isError = true) : scope.outcome.terminate = false := by
  obtain ⟨answer, -, hexecute⟩ := h
  rw [ToolExecutor.execute] at hexecute
  split at hexecute
  · rw [← Except.ok.inj hexecute] at herror
    cases herror
  · rw [← Except.ok.inj hexecute]
    rfl
  · rw [← Except.ok.inj hexecute]
    rfl
  · cases hexecute

/-! ## What an attempt decides -/

theorem AttemptLog.Ran.resultOutcome_eq {attempt : AttemptLog} (htyped : executor.Typed result)
    (h : attempt.Ran executor ownDetails) :
    resultOutcome attempt.outcomes = attempt.verdict executor result := by
  have hscopes : ∀ turn ∈ attempt.turns, turn.outcomes.map (·.decides)
      = (turn.scopes.map (·.call)).map (executor.verdict result) := by
    intro turn hturn
    rw [TurnLog.outcomes, List.map_map, List.map_map]
    exact List.map_congr_left fun scope hscope =>
      ((h.turns turn hturn).scopes scope hscope).decides_eq htyped
  have hattempt : attempt.outcomes.map (·.decides)
      = attempt.calls.map (executor.verdict result) := by
    rw [AttemptLog.outcomes, AttemptLog.calls, List.map_flatMap, List.map_flatMap,
      List.flatMap_congr hscopes]
  calc resultOutcome attempt.outcomes
      = (attempt.outcomes.map (·.decides)).findSome? id := by
        rw [resultOutcome_eq_findSome?, List.findSome?_map]
        rfl
    _ = (attempt.calls.map (executor.verdict result)).findSome? id := by rw [hattempt]
    _ = attempt.verdict executor result := by
        rw [AttemptLog.verdict, List.findSome?_map]
        rfl

/-- A turn that is not the last one of its attempt decides nothing. -/
theorem AttemptLog.Ran.undecided {attempt : AttemptLog} (htyped : executor.Typed result)
    (h : attempt.Ran executor ownDetails) : ∀ turn ∈ attempt.turns.dropLast,
      ∀ scope ∈ turn.scopes, executor.verdict result scope.call = none := by
  intro turn hturn scope hscope
  have hran := (h.turns turn (List.mem_of_mem_dropLast hturn)).scopes scope hscope
  have hcontinue := h.continued turn hturn
  have hterminate : scope.outcome.terminate = false := by
    simp only [TurnResult.shouldContinue, TurnLog.result, TurnLog.outcomes, Bool.and_eq_true,
      Bool.not_eq_true', List.any_eq_false, List.mem_map] at hcontinue
    simpa using hcontinue.2 _ ⟨scope, hscope, rfl⟩
  rw [← hran.decides_eq htyped]
  exact ToolExecutionOutcome.decides_eq_none hterminate

end Executions

/-! ## What the attempts decide -/

/-- The last attempt decides; or none does, and no attempt is left. -/
structure Settles (verdict : AttemptLog → Option RunOutcome) (limit : Nat)
    (attempts : List AttemptLog) (outcome : RunOutcome) : Prop where
  missed : ∀ attempt ∈ attempts.dropLast, verdict attempt = none
  last : (∃ last, attempts.getLast? = some last ∧ verdict last = some outcome) ∨
    (∀ attempt ∈ attempts, verdict attempt = none) ∧ attempts.length = limit ∧
      outcome = .failed (.agentFailure NO_RESULT_REASON)

namespace Settles

variable {verdict : AttemptLog → Option RunOutcome} {limit : Nat} {attempts : List AttemptLog}
  {outcome : RunOutcome}

theorem of_concludes (h : Concludes limit attempts outcome)
    (hverdict : ∀ attempt ∈ attempts, resultOutcome attempt.outcomes = verdict attempt) :
    Settles verdict limit attempts outcome := by
  induction h with
  | exhausted => exact ⟨by simp, .inr ⟨by simp, rfl, rfl⟩⟩
  | decided hdecided =>
    have hlast := hverdict _ List.mem_cons_self
    exact ⟨by simp, .inl ⟨_, rfl, hlast ▸ hdecided⟩⟩
  | @missed left attempt rest outcome hmissed hrest ih =>
    have hnone : verdict attempt = none := (hverdict _ List.mem_cons_self).symm.trans hmissed
    obtain ⟨hearlier, hlast⟩ := ih fun other hother => hverdict other (by simp [hother])
    cases rest with
    | nil =>
      obtain ⟨⟩ := hrest
      exact ⟨by simp, .inr ⟨by simpa using hnone, rfl, rfl⟩⟩
    | cons next rest =>
      refine ⟨by simpa using ⟨hnone, hearlier⟩, ?_⟩
      rcases hlast with ⟨last, hget, hdecided⟩ | ⟨hnones, hlength, houtcome⟩
      · exact .inl ⟨last, by simpa using hget, hdecided⟩
      · exact .inr ⟨List.forall_mem_cons.mpr ⟨hnone, hnones⟩, by simpa using hlength, houtcome⟩

/-- An attempt that decides is the last one. -/
theorem eq_outcome (h : Settles verdict limit attempts outcome) {attempt : AttemptLog}
    (hattempt : attempt ∈ attempts) {decided : RunOutcome}
    (hdecided : verdict attempt = some decided) : decided = outcome := by
  rcases h.last with ⟨last, hget, hlast⟩ | ⟨hnone, -, -⟩
  · rw [← List.dropLast_append_getLast? last hget, List.mem_append, List.mem_singleton] at hattempt
    rcases hattempt with hearlier | rfl
    · rw [h.missed attempt hearlier] at hdecided
      cases hdecided
    · exact Option.some.inj (hdecided.symm.trans hlast)
  · rw [hnone attempt hattempt] at hdecided
    cases hdecided

/-- The outcome is what an attempt decides, or the failure of attempts that are exhausted. -/
theorem outcome_eq_iff (h : Settles verdict limit attempts outcome) (other : RunOutcome) :
    outcome = other ↔ (∃ attempt ∈ attempts, verdict attempt = some other) ∨
      (∀ attempt ∈ attempts, verdict attempt = none) ∧ attempts.length = limit ∧
        other = .failed (.agentFailure NO_RESULT_REASON) := by
  constructor
  · rintro rfl
    refine h.last.imp (fun hlast => ?_) id
    obtain ⟨last, hget, hdecided⟩ := hlast
    exact ⟨last, List.mem_of_getLast? hget, hdecided⟩
  · rintro (⟨attempt, hattempt, hdecided⟩ | ⟨hnone, -, rfl⟩)
    · exact (h.eq_outcome hattempt hdecided).symm
    · rcases h.last with ⟨last, hget, hdecided⟩ | ⟨-, -, houtcome⟩
      · rw [hnone last (List.mem_of_getLast? hget)] at hdecided
        cases hdecided
      · exact houtcome

/-- An attempt that decides nothing is followed by another one, unless none is left. -/
theorem followed (h : Settles verdict limit attempts outcome) {index : Nat} {attempt : AttemptLog}
    (hattempt : attempts[index]? = some attempt) (hnone : verdict attempt = none)
    (hleft : index + 1 < limit) : index + 1 < attempts.length := by
  have hindex := (List.getElem?_eq_some_iff.mp hattempt).1
  by_contra hend
  rcases h.last with ⟨last, hget, hdecided⟩ | ⟨-, hlength, -⟩
  · have hlast : index = attempts.length - 1 := by omega
    rw [List.getLast?_eq_getElem?, ← hlast, hattempt] at hget
    obtain rfl := Option.some.inj hget
    rw [hnone] at hdecided
    cases hdecided
  · omega

end Settles

/-! ## The events of attempts -/

theorem TurnLog.isFollowUp_eq_false (turn : TurnLog) :
    ∀ event ∈ turn.events, event.isFollowUp = false := by
  intro event hevent
  simp only [TurnLog.events, turnTail, List.mem_append, List.mem_flatMap, List.mem_cons,
    List.not_mem_nil, or_false] at hevent
  obtain ⟨shown, -, hshown⟩ | rfl | ⟨scope, -, hscope⟩ | rfl := hevent
  · cases shown with
    | streamStart _ _ =>
      obtain rfl | rfl : event = _ ∨ event = _ := by simpa [ProviderStreamEvent.shown] using hshown
      all_goals rfl
    | update _ =>
      obtain rfl : event = _ := by simpa [ProviderStreamEvent.shown] using hshown
      rfl
    | done _ | error _ => simp [ProviderStreamEvent.shown] at hshown
  · rfl
  · obtain rfl | rfl : event = _ ∨ event = _ := by simpa [ToolScope.events] using hscope
    all_goals rfl
  · rfl

theorem AttemptLog.countP_isFollowUp (attempt : AttemptLog) :
    attempt.events.countP (·.isFollowUp) = 0 := by
  refine List.countP_eq_zero.mpr fun event hevent => ?_
  simp only [AttemptLog.events, List.mem_cons, List.mem_append, List.mem_flatMap,
    List.not_mem_nil, or_false] at hevent
  obtain rfl | ⟨turn, -, hturn⟩ | rfl := hevent
  · exact Bool.false_ne_true
  · simp [turn.isFollowUp_eq_false event hturn]
  · exact Bool.false_ne_true

/-- There is one follow-up less than there are attempts. -/
theorem countP_attemptsEvents {attempts : List AttemptLog} (h : attempts ≠ []) :
    (attemptsEvents attempts).countP (·.isFollowUp) + 1 = attempts.length := by
  induction attempts with
  | nil => exact absurd rfl h
  | cons attempt rest ih =>
    cases rest with
    | nil => simp [attemptsEvents, attempt.countP_isFollowUp]
    | cons next rest =>
      have hrest := ih (List.cons_ne_nil _ _)
      rw [attemptsEvents_cons (List.cons_ne_nil _ _), List.countP_append,
        attempt.countP_isFollowUp, List.countP_cons_of_pos (by rfl), hrest, Nat.zero_add]
      rfl

/-! ## Typed runs -/

/-- **A typed run that returned an outcome**: it took these attempts, with this executor. -/
structure TypedEnd (run : PromptRun) (result : ResultModel) (outcome : RunOutcome)
    (executor : ToolExecutor) (attempts : List AttemptLog) : Prop where
  created : ToolExecutor.create run.dependencies.toolExecutor.lower
    (run.dependencies.toolExecutor.tools ++ [result.completeDefinition, failTool]) = .ok executor
  log : run.log = .runStart :: attemptsEvents attempts
  /-- Every turn ran all calls of its message, and went on unless one of them terminated. -/
  ran : ∀ attempt ∈ attempts, attempt.Ran executor ownDetails
  /-- The provider is called once for each turn of the log. -/
  requests : run.executed.2.requests.length = turnCount attempts
  length : 0 < attempts.length ∧ attempts.length ≤ 9
  followUps : run.log.countP (·.isFollowUp) + 1 = attempts.length
  completed_iff : ∀ value, outcome = .completed value ↔
    ∃ attempt ∈ attempts, attempt.verdict executor result = some (.completed value)
  failed_iff : ∀ reason, outcome = .failed (.agentFailure reason) ↔
    (∃ attempt ∈ attempts,
      attempt.verdict executor result = some (.failed (.agentFailure reason))) ∨
    (∀ attempt ∈ attempts, attempt.verdict executor result = none) ∧ attempts.length = 9 ∧
      reason = NO_RESULT_REASON
  /-- There is no other way to end. -/
  settled : (∃ value, outcome = .completed value) ∨
    ∃ reason, outcome = .failed (.agentFailure reason)
  /-- The attempt that decides is the last one, and it decides in its last turn. -/
  missed : ∀ attempt ∈ attempts.dropLast, attempt.verdict executor result = none
  undecided : ∀ attempt ∈ attempts, ∀ turn ∈ attempt.turns.dropLast, ∀ scope ∈ turn.scopes,
    executor.verdict result scope.call = none
  /-- An attempt that decides nothing is followed by another one, unless it is the ninth. -/
  followed : ∀ index attempt, attempts[index]? = some attempt →
    attempt.verdict executor result = none → index < 8 → index + 1 < attempts.length
  /-- A rejected or failed execution neither decides nor ends its attempt. -/
  rejected : ∀ attempt ∈ attempts, ∀ turn ∈ attempt.turns, ∀ scope ∈ turn.scopes,
    scope.outcome.toolResultTurn.isError = true →
      scope.outcome.terminate = false ∧ executor.verdict result scope.call = none

theorem ToolExecutor.verdict_cases {executor : ToolExecutor} {result : ResultModel}
    {call : ToolCallBlock} {outcome : RunOutcome}
    (h : executor.verdict result call = some outcome) :
    (∃ value, outcome = .completed value) ∨ ∃ reason, outcome = .failed (.agentFailure reason) := by
  rw [verdict] at h
  repeat' split at h
  all_goals cases h
  · exact .inl ⟨_, rfl⟩
  · exact .inr ⟨_, rfl⟩

/-- **Typed runs end only through the result contract**, whatever the provider and the user's tools
do. -/
theorem typed_run_ends_by_contract (run : PromptRun) {result : ResultModel}
    (hresult : run.result = some result)
    (huser : ∀ tool ∈ run.dependencies.toolExecutor.tools, tool.fn = .user)
    (hdetails : ∀ attempt ∈ run.script.attempts, ∀ turn ∈ attempt.turns,
      ∀ answer ∈ turn.tools, answer.OwnDetails)
    {outcome : RunOutcome} (houtcome : run.executed.1 = .ok outcome) :
    ∃ executor attempts, TypedEnd run result outcome executor attempts := by
  have hcancelled : run.script.cancelledAtStart = false := by
    by_contra hcancelled
    rw [Bool.not_eq_false] at hcancelled
    simp [PromptRun.executed, executePrompt, hcancelled] at houtcome
  have hexecute : executePrompt run.dependencies run.result run.script
      = executeTyped run.dependencies result run.script := by
    simp [executePrompt, hcancelled, hresult]
  obtain ⟨added, hlog, hrequests, hok, -⟩ := PromptRun.executed_adds run
    (hexecute ▸ executeTyped_adds run.dependencies result fun attempt hattempt turn hturn =>
      ownDetails_admits (hdetails attempt hattempt turn hturn))
  obtain ⟨executor, attempts, hcreate, hconcludes, hrans, rfl⟩ := hok outcome houtcome
  have htyped := ToolExecutor.typed_of_create hcreate huser
  have hsettles : Settles (·.verdict executor result) 9 attempts outcome :=
    .of_concludes hconcludes fun attempt hattempt =>
      (hrans attempt hattempt).resultOutcome_eq htyped
  have hne := hconcludes.nonempty
  refine ⟨executor, attempts, hcreate, hlog, hrans, hrequests,
    ⟨List.length_pos_of_ne_nil hne, hconcludes.length_le⟩, ?_, fun value => ?_, fun reason => ?_,
    ?_, hsettles.missed, fun attempt hattempt => (hrans attempt hattempt).undecided htyped,
    fun index attempt hattempt hnone hindex => hsettles.followed hattempt hnone (by omega), ?_⟩
  · rw [hlog, List.countP_cons_of_neg (by simp [AgentEvent.isFollowUp])]
    exact countP_attemptsEvents hne
  · simpa using hsettles.outcome_eq_iff (.completed value)
  · simpa using hsettles.outcome_eq_iff (.failed (.agentFailure reason))
  · rcases hsettles.last with ⟨last, -, hdecided⟩ | ⟨-, -, rfl⟩
    · obtain ⟨call, -, hverdict⟩ := List.exists_of_findSome?_eq_some hdecided
      exact ToolExecutor.verdict_cases hverdict
    · exact .inr ⟨_, rfl⟩
  · intro attempt hattempt turn hturn scope hscope herror
    have hran := ((hrans attempt hattempt).turns turn hturn).scopes scope hscope
    have hterminate := hran.terminate_of_isError herror
    refine ⟨hterminate, ?_⟩
    rw [← hran.decides_eq htyped]
    exact ToolExecutionOutcome.decides_eq_none hterminate

/-- A message that calls one or more tools. -/
def callsTools (blocks : List ToolCallBlock) : List ProviderStreamEvent :=
  [.streamStart { provider := "p" } "a",
    .done ⟨{ provider := "p" }, none, .toolUse, blocks.map .toolCall⟩]

def contestedResult : ResultModel where
  validate := fun arguments =>
    if arguments = [] then .invalid [⟨[.field "x"], "missing", "Field required"⟩]
    else .valid ⟨"Result", some arguments⟩
  jsonSchema := .ok [("type", .str "object")]
  validationError := fun message => { typeName := "ValidationError", message }

/-- A user tool terminates the first attempt; in the second one a result is rejected, and then the
batch of one message fails the run before it completes it. -/
def contestedRun : PromptRun where
  record := ⟨"r", "s", "prompt", 2, "model", "provider"⟩
  committedHistory := []
  dependencies := {
    instructions := ""
    toolExecutor := ⟨id, [⟨"note", fun arguments => .valid ⟨"Input", some arguments⟩, .user⟩]⟩ }
  result := some contestedResult
  script := { attempts := [
    { turns := [{
        events := callsTools [{ callId := "c1", name := "note" }]
        tools := [.returns { content := [], terminate := true }] }] },
    { turns := [
        { events := callsTools [{ callId := "c2", name := "complete" }] },
        { events := callsTools [
            { callId := "c3", name := "fail", arguments := [("reason", .str "no")] },
            { callId := "c4", name := "complete", arguments := [("x", .str "y")] }] }] }] }

theorem typed_run_ends_by_contract_contested :
    contestedRun.executed.1 = .ok (.failed (.agentFailure "no")) ∧
      contestedRun.executed.2.requests.length = 3 ∧
      ∃ executor attempts,
        TypedEnd contestedRun contestedResult (.failed (.agentFailure "no")) executor attempts := by
  refine ⟨by decide +kernel, by decide +kernel,
    typed_run_ends_by_contract contestedRun rfl ?_ ?_ (by decide +kernel)⟩
  · simp [contestedRun]
  · simp [contestedRun, ToolAnswer.OwnDetails]

end Tile
