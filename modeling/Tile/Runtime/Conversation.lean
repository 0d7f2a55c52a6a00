import Tile.Runtime.Phases

/-!
# Runtime/Conversation — what the model sees is what gets committed

The agent loop accumulates the conversation in its own list, and the run projects events into its
buffers.  The two never diverge: **every provider request shows the committed history followed by
the run's delta at that moment, and the delta a run commits extends each of them**
(`request_shows_delta`).
-/

namespace Tile

open Phase

/-- The conversation the agent loop has accumulated, while it holds one. -/
def Phase.loopHistory : Phase → Option (List ConversationItem)
  | .ready attempt | .streaming attempt | .done attempt => some attempt.history
  | .answering attempt turn outcomes _ | .running attempt turn outcomes _ _ =>
    some (attempt.extend ⟨turn, outcomes⟩).history
  | .idle _ | .failed => none

@[simp] theorem Attempt.loopHistory_after (attempt : Attempt) (result : TurnResult) :
    (attempt.after result).loopHistory = some (attempt.extend result).history := by
  rw [Attempt.after]
  split <;> rfl

/-- The request showed the committed history and the run's delta of that moment, which the delta
still extends. -/
def ProviderRequest.ShowsDelta (request : ProviderRequest)
    (committed delta : List ConversationItem) : Prop :=
  request.history = committed ++ request.delta ∧ request.delta <+: delta

/-- The two copies of the conversation agree, and every request showed them. -/
structure Agreed (committed : List ConversationItem) (s : Phase × Live) : Prop where
  history : s.2.execution.history.Extends committed
  loop : ∀ items ∈ s.1.loopHistory, items = s.2.execution.history.working
  requests : ∀ request ∈ s.2.requests, request.ShowsDelta committed s.2.execution.history.delta

/-- Emitting an event keeps the agreement if the loop accumulates the event's item as well. -/
theorem Agreed.emit {committed : List ConversationItem} {phase phase' : Phase} {live : Live}
    (h : Agreed committed (phase, live)) (event : AgentEvent)
    (hloop : ∀ items ∈ phase'.loopHistory,
      items = live.execution.history.working ++ (conversationItemFor event).toList) :
    Agreed committed (phase', live.emit event) where
  history := h.history.extend _
  loop := hloop
  requests := fun request hrequest =>
    let ⟨hshown, hprefix⟩ := h.requests request hrequest
    ⟨hshown, hprefix.trans (List.prefix_append _ _)⟩

theorem Agreed.step {executor : ToolExecutor} {committed : List ConversationItem}
    {s s' : Phase × Live} {act : Act} (h : Agreed committed s)
    (hstep : Phase.Step executor s act s') : Agreed committed s' := by
  obtain ⟨phase, live⟩ := s
  obtain ⟨phase', live'⟩ := s'
  obtain ⟨hmove, rfl⟩ := hstep
  cases hmove with
  | callProvider =>
    refine ⟨h.history, h.loop, fun request hrequest => ?_⟩
    rcases List.mem_append.mp hrequest with hrequest | hrequest
    · exact h.requests request hrequest
    · obtain rfl := List.mem_singleton.mp hrequest
      exact ⟨(h.loop _ rfl).trans h.history, List.prefix_refl _⟩
  | startAgent => exact h.emit _ (by simp [conversationItemFor, loopHistory])
  | startTurn | startMessage | updateMessage | startTool =>
    exact h.emit _ (by simpa [conversationItemFor, loopHistory] using h.loop)
  | @endTurn attempt turn outcomes =>
    have hafter : Agreed committed
        (attempt.after ⟨turn, outcomes⟩, live.emit (.turnEnd turn outcomes)) :=
      h.emit _ (by simpa [conversationItemFor] using h.loop _ rfl)
    exact hafter
  | failMessage _ | endAgent | followUp => exact h.emit _ (by simp [loopHistory])
  | completeMessage hcompleted =>
    refine h.emit _ fun items hitems => ?_
    obtain rfl := Option.some.inj hitems
    rw [← h.loop _ rfl]
    simp [conversationItemFor, hcompleted, Attempt.extend, TurnResult.conversationItems]
  | endTool _ =>
    refine h.emit _ fun items hitems => ?_
    obtain rfl := Option.some.inj hitems
    rw [← h.loop _ rfl]
    simp [conversationItemFor, Attempt.extend, TurnResult.conversationItems]

theorem agreed_init (record : ActiveRun) (committed : List HistoryItem) :
    Agreed (committed.map (·.item)) (.idle none, { execution := .init record committed }) where
  history := (RunHistory.extends_start committed record.prompt).extend _
  loop := by simp [loopHistory]
  requests := by simp

/-- Wherever a prompt run stops, the agreement holds. -/
theorem PromptRun.agreed (run : PromptRun) :
    ∃ phase, Agreed (run.committedHistory.map (·.item)) (phase, run.executed.2) := by
  obtain ⟨executor, phase, acts, hrun⟩ := executePrompt_reaches run.dependencies run.result
    run.script { execution := .init run.record run.committedHistory }
  exact ⟨phase, hrun.invariant (fun hstep h => h.step hstep) (agreed_init _ _)⟩

/-- **What the model sees is what gets committed.**  In every prompt run, every call of
`provider.stream` is given the committed history followed by the run's provisional delta of that
moment, and the delta the run is finished with extends it. -/
theorem request_shows_delta (run : PromptRun) :
    ∀ request ∈ run.executed.2.requests,
      request.history = run.committedHistory.map (·.item) ++ request.delta ∧
        request.delta <+: run.delta := by
  intro request hrequest
  obtain ⟨phase, h⟩ := run.agreed
  obtain ⟨hshown, hprefix⟩ := h.requests request hrequest
  exact ⟨hshown, hprefix.trans (List.prefix_append _ _)⟩

/-- A run that calls a tool in its first turn and answers in its second. -/
def toolRun : PromptRun where
  record := ⟨"r", "s", "prompt", 2, "model", "provider"⟩
  committedHistory := [⟨"h", "s", "q", 0, .user { content := "before" }, 1⟩]
  dependencies := {
    instructions := ""
    toolExecutor := ⟨id, [{
      name := "read"
      validate := fun arguments => .valid ⟨"Input", some arguments⟩ }]⟩ }
  result := none
  script := { attempts := [{ turns := [
    { events := [.done {
        source := { provider := "provider" }
        stopReason := .toolUse
        blocks := [.toolCall { callId := "a", name := "read" }] }]
      tools := [.returns { content := [.text "content"] }] },
    { events := [.done { source := { provider := "provider" }, stopReason := .stop }] }] }] }

theorem request_shows_delta_toolRun :
    ∃ request ∈ toolRun.executed.2.requests, request.delta.length = 3 ∧
      request.history = toolRun.committedHistory.map (·.item) ++ request.delta ∧
        request.delta <+: toolRun.delta := by
  obtain ⟨request, hrequest, hlength⟩ : ∃ request ∈ toolRun.executed.2.requests,
      decide (request.delta.length = 3) = true := List.any_eq_true.mp (by decide +kernel)
  exact ⟨request, hrequest, of_decide_eq_true hlength, request_shows_delta toolRun request hrequest⟩

end Tile
