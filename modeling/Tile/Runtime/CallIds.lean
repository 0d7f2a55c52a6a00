import Tile.Runtime.Healing

/-!
# Runtime/CallIds — healing a run that uses a call id twice

Nothing keeps a provider from giving two calls of a run one id.  The results a run has when it
stops answer its first calls, in order; healing adds one for each call that is left, **but for those
whose id has a result already**.  So calls and results match one to one exactly if no call that is
left has such an id (`PromptRun.matched_iff`).
-/

namespace Tile

def callIds (items : List ConversationItem) : List String := (toolCallsOf items).map (·.callId)

def resultIds (items : List ConversationItem) : List String := (toolResultsOf items).map (·.callId)

@[simp] theorem callIds_append (items items' : List ConversationItem) :
    callIds (items ++ items') = callIds items ++ callIds items' := by
  rw [callIds, toolCallsOf_append, List.map_append, ← callIds, ← callIds]

@[simp] theorem resultIds_append (items items' : List ConversationItem) :
    resultIds (items ++ items') = resultIds items ++ resultIds items' := by
  rw [resultIds, toolResultsOf_append, List.map_append, ← resultIds, ← resultIds]

@[simp] theorem callIds_results (results : List ToolResultTurn) :
    callIds (results.map .toolResult) = [] := by
  rw [callIds, toolCallsOf_map_toolResult, List.map_nil]

@[simp] theorem resultIds_results (results : List ToolResultTurn) :
    resultIds (results.map .toolResult) = results.map (·.callId) := by
  rw [resultIds, toolResultsOf_map_toolResult]

/-- Each result comes after its call: up to any item, an id has no more results than calls. -/
def ResultsFollow (items : List ConversationItem) : Prop :=
  ∀ (n : Nat) (id : String),
    (resultIds (items.take n)).count id ≤ (callIds (items.take n)).count id

/-- Calls and results match one to one, each result after its call. -/
structure Matched (items : List ConversationItem) : Prop where
  count_eq : ∀ id, (resultIds items).count id = (callIds items).count id
  follow : ResultsFollow items

/-! ## Results follow their calls -/

namespace ResultsFollow

theorem count_le {items : List ConversationItem} (h : ResultsFollow items) (id : String) :
    (resultIds items).count id ≤ (callIds items).count id := by
  simpa using h items.length id

theorem append {items items' : List ConversationItem} (h : ResultsFollow items)
    (h' : ResultsFollow items') : ResultsFollow (items ++ items') := by
  intro n id
  rw [List.take_append, resultIds_append, callIds_append, List.count_append, List.count_append]
  exact Nat.add_le_add (h n id) (h' _ id)

/-- A turn with the results of its first calls. -/
theorem turn {turn : AssistantTurn} {done left : List ToolCallBlock}
    {results : List ToolResultTurn} (hcalls : turn.toolCalls = done ++ left)
    (hdone : List.Forall₂ ToolResultTurn.Answers done results) :
    ResultsFollow (.assistant turn :: results.map .toolResult) := by
  rintro (_ | n) id
  · exact Nat.le_refl _
  · have hids : resultIds (.assistant turn :: (results.take n).map .toolResult)
        = (done.map (·.callId)).take n := by
      rw [resultIds, toolResultsOf_exchange, List.map_take, map_callId_of_answers hdone]
    have hcallIds : callIds (.assistant turn :: (results.take n).map .toolResult)
        = done.map (·.callId) ++ left.map (·.callId) := by
      rw [callIds, toolCallsOf_exchange, hcalls, List.map_append]
    rw [List.take_succ_cons, ← List.map_take, hids, hcallIds, List.count_append]
    exact ((List.take_sublist n _).count_le id).trans (Nat.le_add_right _ _)

end ResultsFollow

theorem Replayable.resultsFollow {items : List ConversationItem} (h : Replayable items) :
    ResultsFollow items := by
  obtain ⟨exchanges, rfl⟩ := h
  induction exchanges with
  | nil => exact fun n id => by simp [resultIds, toolResultsOf]
  | cons exchange exchanges ih =>
    rw [List.flatMap_cons]
    refine .append ?_ ih
    cases exchange with
    | user message =>
      exact fun n id => by cases n <;> simp [resultIds, Exchange.items, toolResultsOf]
    | turn answered => exact .turn (List.append_nil _).symm answered.answered

/-! ## Where a run stops -/

/-- The delta before healing. -/
def PromptRun.unhealed (run : PromptRun) : List ConversationItem :=
  run.executed.2.execution.history.delta

/-- The calls that are left when the run stops: the results there are belong to those in front. -/
def PromptRun.callsLeft (run : PromptRun) : List ToolCallBlock :=
  (toolCallsOf run.unhealed).drop (toolResultsOf run.unhealed).length

/-- The results answer the first calls, in order. -/
structure AnswersFirst (items : List ConversationItem) (answered left : List ToolCallBlock) :
    Prop where
  calls : toolCallsOf items = answered ++ left
  results : resultIds items = answered.map (·.callId)
  follow : ResultsFollow items

theorem Replayable.answersFirst {items : List ConversationItem} (h : Replayable items) :
    AnswersFirst items (toolCallsOf items) [] where
  calls := (List.append_nil _).symm
  results := h.map_callId
  follow := h.resultsFollow

theorem OpenTurn.Ends.answersFirst {opened : OpenTurn} {delta : List ConversationItem}
    (h : opened.Ends delta) : ∃ answered, AnswersFirst delta answered opened.calls := by
  obtain ⟨before, done, results, hbefore, rfl, -, hcalls, hdone, hcallsOf, hresultsOf⟩ :=
    h.exists_done
  exact ⟨toolCallsOf before ++ done, hcallsOf, hresultsOf,
    hbefore.resultsFollow.append (.turn hcalls hdone)⟩

theorem AnswersFirst.left_eq {items : List ConversationItem} {answered left : List ToolCallBlock}
    (h : AnswersFirst items answered left) :
    (toolCallsOf items).drop (toolResultsOf items).length = left := by
  have hlength : (toolResultsOf items).length = answered.length := by
    simpa [resultIds] using congrArg List.length h.results
  rw [h.calls, hlength, List.drop_left]

theorem PromptRun.answersFirst (run : PromptRun) :
    ∃ answered, AnswersFirst run.unhealed answered run.callsLeft := by
  obtain ⟨-, phase, hshape⟩ := run.stopped
  rw [Phase.Shapes] at hshape
  obtain ⟨answered, left, hanswers⟩ : ∃ answered left, AnswersFirst run.unhealed answered left := by
    split at hshape
    · exact ⟨_, [], hshape.answersFirst⟩
    · obtain ⟨answered, hanswers⟩ := hshape.answersFirst
      exact ⟨answered, _, hanswers⟩
  have hleft : run.callsLeft = left := hanswers.left_eq
  exact ⟨answered, hleft ▸ hanswers⟩

/-! ## After healing -/

/-- What healing makes of a delta. -/
def healed (items : List ConversationItem) : List ConversationItem :=
  items ++ ((unansweredToolCalls items).map incompleteResult).map .toolResult

theorem callIds_healed (items : List ConversationItem) :
    callIds (healed items) = callIds items := by
  rw [healed, callIds_append, callIds_results, List.append_nil]

theorem resultIds_healed (items : List ConversationItem) : resultIds (healed items)
    = resultIds items ++ (unansweredToolCalls items).map (·.callId) := by
  rw [healed, resultIds_append, resultIds_results, List.map_map]
  rfl

theorem not_mem_resultIds {items : List ConversationItem} {call : ToolCallBlock}
    (h : call ∈ unansweredToolCalls items) : call.callId ∉ resultIds items :=
  of_decide_eq_true (List.mem_filter.mp h).2

/-- Healing never answers a call too often. -/
theorem ResultsFollow.healed {items : List ConversationItem} (h : ResultsFollow items) :
    ResultsFollow (healed items) := by
  intro n id
  rw [Tile.healed, List.take_append, resultIds_append, callIds_append, ← List.map_take,
    ← List.map_take, callIds_results, resultIds_results, List.append_nil, List.count_append,
    List.map_map]
  rcases Nat.le_total n items.length with hle | hge
  · simpa [Nat.sub_eq_zero_of_le hle] using h n id
  · rw [List.take_of_length_le hge]
    have hadded : (((unansweredToolCalls items).take (n - items.length)).map
        ((·.callId) ∘ incompleteResult)).count id ≤ (callIds items).count id :=
      (((List.take_sublist _ _).trans List.filter_sublist).map _).count_le id
    by_cases hid : id ∈ resultIds items
    · have hnone : id ∉ ((unansweredToolCalls items).take (n - items.length)).map
          ((·.callId) ∘ incompleteResult) := by
        intro hmem
        obtain ⟨call, hcall, rfl⟩ := List.mem_map.mp hmem
        exact not_mem_resultIds (List.mem_of_mem_take hcall) hid
      rw [List.count_eq_zero_of_not_mem hnone]
      exact h.count_le id
    · rw [List.count_eq_zero_of_not_mem hid, Nat.zero_add]
      exact hadded

namespace AnswersFirst

variable {items : List ConversationItem} {answered left : List ToolCallBlock}

/-- Healing passes over a call whose id has a result. -/
theorem unansweredToolCalls_eq (h : AnswersFirst items answered left) :
    unansweredToolCalls items = left.filter (·.callId ∉ resultIds items) := by
  rw [unansweredToolCalls, ← resultIds, h.calls, List.filter_append, List.filter_eq_nil_iff.mpr,
    List.nil_append]
  intro call hcall
  rw [h.results]
  simpa using ⟨call, hcall, rfl⟩

/-- **Healing answers every call exactly if no call that is left has the id of a result.** -/
theorem matched_healed_iff (h : AnswersFirst items answered left) :
    Matched (healed items) ↔ ∀ call ∈ left, call.callId ∉ resultIds items := by
  have hcalls : callIds (healed items) = resultIds items ++ left.map (·.callId) := by
    rw [callIds_healed, callIds, h.calls, List.map_append, h.results]
  have hcount : ∀ id, (resultIds (healed items)).count id = (callIds (healed items)).count id ↔
      ((left.filter (·.callId ∉ resultIds items)).map (·.callId)).count id
        = (left.map (·.callId)).count id := by
    intro id
    rw [hcalls, resultIds_healed, h.unansweredToolCalls_eq, List.count_append, List.count_append,
      Nat.add_left_cancel_iff]
  constructor
  · intro hmatched call hcall hid
    have hnone : call.callId ∉ (left.filter (·.callId ∉ resultIds items)).map (·.callId) := by
      intro hmem
      obtain ⟨other, hother, hsame⟩ := List.mem_map.mp hmem
      exact of_decide_eq_true (List.mem_filter.mp hother).2 (hsame ▸ hid)
    have hpos := List.count_pos_iff.mpr (List.mem_map_of_mem (f := (·.callId)) hcall)
    have hsame := (hcount call.callId).mp (hmatched.count_eq call.callId)
    rw [List.count_eq_zero_of_not_mem hnone] at hsame
    omega
  · intro hleft
    refine ⟨fun id => (hcount id).mpr ?_, h.follow.healed⟩
    rw [List.filter_eq_self.mpr fun call hcall => decide_eq_true (hleft call hcall)]

end AnswersFirst

/-- **When healing leaves no call unanswered.**  Wherever a run stops, the calls and the results of
its delta match one to one after healing, each result after its call, if and only if no call that
is left has the id of a result that is there. -/
theorem PromptRun.matched_iff (run : PromptRun) :
    Matched run.delta ↔ ∀ call ∈ run.callsLeft, call.callId ∉ resultIds run.unhealed := by
  obtain ⟨answered, h⟩ := run.answersFirst
  have hdelta : run.delta = healed run.unhealed := run.delta_eq
  rw [hdelta]
  exact h.matched_healed_iff

/-- A provider gives both calls of a turn the id `a`; the run is cancelled in the second. -/
def reusedIdRun : PromptRun where
  record := ⟨"r", "s", "prompt", 2, "model", "provider"⟩
  committedHistory := []
  dependencies := {
    instructions := ""
    toolExecutor := ⟨id, [⟨"read", fun arguments => .valid ⟨"Input", some arguments⟩, .user⟩]⟩ }
  result := none
  script := { attempts := [{ turns := [{
    events := [.done ⟨{ provider := "provider" }, none, .toolUse,
      [.toolCall { callId := "a", name := "read" }, .toolCall { callId := "a", name := "read" }]⟩]
    tools := [.returns { content := [.text "content"] }, .escapes .cancelled] }] }] }

/-- Two calls, and one result. -/
theorem not_matched_reusedIdRun :
    reusedIdRun.executed.1 = .error .cancelled ∧ callIds reusedIdRun.delta = ["a", "a"] ∧
      resultIds reusedIdRun.delta = ["a"] ∧ ¬ Matched reusedIdRun.delta := by
  have hcalls : callIds reusedIdRun.delta = ["a", "a"] := by decide +kernel
  have hresults : resultIds reusedIdRun.delta = ["a"] := by decide +kernel
  refine ⟨by decide +kernel, hcalls, hresults, fun h => ?_⟩
  have hcount := h.count_eq "a"
  rw [hcalls, hresults] at hcount
  simp at hcount

end Tile
