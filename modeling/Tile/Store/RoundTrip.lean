import Tile.Library.Union
import Tile.Store.Change

/-!
# Store/RoundTrip — what is stored is read back as what it was

Assistant blocks, tool results and outcomes are unions without a discriminator, and their
alternatives have defaults and ignore extra keys.  Their tags are always written, so that a stored
value is accepted by **one alternative of each union**, its own, and nothing else is ever read back.
It is read back **exactly if the parser reads its text** (`payloads_round_trip`).
-/

namespace Tile

/-! ## The alternatives -/

/-- The alternatives of the block union, in the order they are tried. -/
def AssistantBlock.alternatives : List (Json → Option AssistantBlock) :=
  [fun value => (TextBlock.ofJson? value).map .text,
    fun value => (ReasoningBlock.ofJson? value).map .reasoning,
    fun value => (ToolCallBlock.ofJson? value).map .toolCall]

/-- The alternatives of the content union, in the order they are tried. -/
def ToolResultContent.alternatives : List (Json → Option ToolResultContent) :=
  [toolTextContentOfJson?, toolImageContentOfJson?]

/-- The alternatives of the outcome union, in the order they are tried. -/
def RunOutcome.alternatives : List (Json → Option RunOutcome) :=
  [fun value => value.object?.bind completedOfJson?,
    fun value => value.object?.bind failedOfJson?,
    fun value => value.object?.bind abortedOfJson?]

theorem AssistantBlock.chooses_ofJson? : Chooses alternatives ofJson? := by
  have h : ofJson? = fun value => alternatives.findSome? fun decode => decode value := by
    funext value
    simp only [ofJson?, alternatives, List.findSome?_cons, List.findSome?_nil]
    cases TextBlock.ofJson? value <;> cases ReasoningBlock.ofJson? value <;>
      cases ToolCallBlock.ofJson? value <;> rfl
  exact h ▸ chooses_findSome? alternatives

theorem ToolResultContent.chooses_ofJson? : Chooses alternatives ofJson? := by
  have h : ofJson? = fun value => alternatives.findSome? fun decode => decode value := by
    funext value
    simp only [ofJson?, alternatives, List.findSome?_cons, List.findSome?_nil]
    cases toolTextContentOfJson? value <;> cases toolImageContentOfJson? value <;> rfl
  exact h ▸ chooses_findSome? alternatives

theorem RunOutcome.chooses_outcomeOfJson? : Chooses alternatives outcomeOfJson? := by
  have h : outcomeOfJson? = fun value => alternatives.findSome? fun decode => decode value := by
    funext value
    simp only [outcomeOfJson?, alternatives, List.findSome?_cons, List.findSome?_nil]
    cases value.object? with
    | none => rfl
    | some object =>
      simp only [Option.bind_eq_bind, Option.bind_some]
      cases completedOfJson? object <;> cases failedOfJson? object <;>
        cases abortedOfJson? object <;> rfl
  exact h ▸ chooses_findSome? alternatives

/-! ## One accepts -/

theorem AssistantBlock.accepted_toJson (block : AssistantBlock) :
    accepted alternatives block.toJson = [block] := by
  have hmetadata := Json.optional?_ofOption ProviderMetadata.ofJson?_toJson
    (fun _ => by simp [ProviderMetadata.toJson])
  cases block <;>
    simp [alternatives, toJson, TextBlock.ofJson?, ReasoningBlock.ofJson?, ToolCallBlock.ofJson?,
      metadataOfJson?, Json.object?, JsonObject.required, JsonObject.withDefault,
      JsonObject.tagged, JsonObject.get?_cons, Json.string?, hmetadata]

theorem ToolResultContent.accepted_toJson (content : ToolResultContent) :
    accepted alternatives content.toJson = [content] := by
  cases content <;>
    simp [alternatives, toJson, toolTextContentOfJson?, toolImageContentOfJson?, Json.object?,
      JsonObject.required, JsonObject.withDefault, JsonObject.tagged, JsonObject.get?_cons,
      Json.string?]

/-- At most one outcome has the tag that an object has. -/
theorem RunOutcome.length_accepted_le {object : JsonObject} {tag : String}
    (h : object.get? "type" = some (.str tag)) :
    (accepted alternatives (.obj object)).length ≤ 1 := by
  have htagged : ∀ tag', object.tagged "type" tag' = if tag = tag' then some () else none := by
    simp [JsonObject.tagged, JsonObject.withDefault, h]
  have hnone : ∀ (tag' : String) (decode : Unit → Option RunOutcome), tag ≠ tag' →
      (object.tagged "type" tag').bind decode = none := fun tag' decode hne => by
    rw [htagged, if_neg hne, Option.bind_none]
  have hle : ∀ o : Option RunOutcome, o.toList.length ≤ 1 := fun o => by cases o <;> simp
  simp only [alternatives, accepted_cons, accepted_nil, Json.object?, Option.bind_some,
    completedOfJson?, failedOfJson?, abortedOfJson?, Option.bind_eq_bind, List.append_nil]
  by_cases hcompleted : tag = "completed"
  · subst hcompleted
    rw [hnone "failed" _ (by decide), hnone "aborted" _ (by decide)]
    simp only [Option.toList_none, List.append_nil]
    exact hle _
  · rw [hnone "completed" _ hcompleted]
    by_cases hfailed : tag = "failed"
    · subst hfailed
      rw [hnone "aborted" _ (by decide)]
      simp only [Option.toList_none, List.append_nil]
      exact hle _
    · rw [hnone "failed" _ hfailed]
      exact hle _

/-- A stored outcome has its tag. -/
theorem exists_tag_of_dumpOutcome {outcome : RunOutcome} {payload : Json}
    (h : dumpOutcome outcome = some payload) :
    ∃ object tag, payload = .obj object ∧ JsonObject.get? object "type" = some (.str tag) := by
  cases outcome with
  | completed value =>
    obtain ⟨v, -, rfl⟩ := Option.map_eq_some_iff.mp h
    exact ⟨_, "completed", rfl, rfl⟩
  | failed cause =>
    obtain rfl := Option.some.inj h
    exact ⟨_, "failed", rfl, rfl⟩
  | aborted reason =>
    cases reason
    obtain rfl := Option.some.inj h
    exact ⟨_, "aborted", rfl, rfl⟩

theorem RunOutcome.accepted_of_dumpOutcome {outcome : RunOutcome} {payload : Json}
    (h : dumpOutcome outcome = some payload) : accepted alternatives payload = [outcome.plain] := by
  obtain ⟨object, tag, rfl, htag⟩ := exists_tag_of_dumpOutcome h
  exact chooses_outcomeOfJson?.accepted_eq (outcomeOfJson_of_dumpOutcome h)
    (length_accepted_le htag)

/-! ## The round trip -/

/-- The row of a run that has ended: the row it was admitted with, after the terminal update. -/
def TerminalRun.toRow (run : TerminalRun) (outcomeJson : Json) : RunRow :=
  Database.finishedRow run.status run.endedAt outcomeJson run.id run.sessionId
    (runValues { toRunBase := run.toRunBase })

theorem TerminalRun.toRow_eq (run : TerminalRun) (outcomeJson : Json) :
    run.toRow outcomeJson =
      { runValues { toRunBase := run.toRunBase } with
        status := run.status, endedAt := some run.endedAt, outcomeJson := some outcomeJson } := by
  simp [toRow, Database.finishedRow, runValues]

/-- Every outcome is stored, but for a model instance that does not serialize. -/
theorem exists_dumpOutcome {outcome : RunOutcome}
    (h : ∀ value : ModelInstance, outcome = .completed (.model value) → value.dump.isSome) :
    ∃ outcomeJson, dumpOutcome outcome = some outcomeJson := by
  cases outcome with
  | completed value =>
    cases value with
    | text text => exact ⟨_, rfl⟩
    | object object => exact ⟨_, rfl⟩
    | model value =>
      obtain ⟨object, hobject⟩ := Option.isSome_iff_exists.mp (h value rfl)
      exact ⟨_, by rw [dumpOutcome, CompletedValue.dump, hobject]; rfl⟩
  | failed cause => exact ⟨_, rfl⟩
  | aborted reason =>
    cases reason
    exact ⟨_, rfl⟩

section Parser

variable [JsonParser]

theorem RunRow.legible_toRow (run : TerminalRun) {outcomeJson : Json}
    (h : dumpOutcome run.outcome = some outcomeJson) :
    (run.toRow outcomeJson).Legible ↔ run.outcome.Legible := by
  simp [RunRow.Legible, RunOutcome.Legible, run.toRow_eq, h]

/-- **The row of a run that has ended is decoded exactly when its outcome is legible.** -/
theorem runFromRow_toRow (run : TerminalRun) {outcomeJson : Json}
    (h : dumpOutcome run.outcome = some outcomeJson) :
    runFromRow (run.toRow outcomeJson) = .ok (.terminal { run with outcome := run.outcome.plain }) ↔
      run.outcome.Legible := by
  have hwritten : (run.toRow outcomeJson).Written := by
    rw [run.toRow_eq]
    exact .inr ⟨_, _, run.outcome, rfl, rfl, h, rfl, run.ordered⟩
  have hended : (run.toRow outcomeJson).status ≠ .active := by
    rw [run.toRow_eq]
    exact terminalStatusFor_ne_active run.outcome
  rw [← RunRow.legible_toRow run h]
  refine ⟨fun hdecoded => ?_, fun hlegible => ?_⟩
  · by_contra hrefused
    have hraises := runFromRow_of_not_legible hwritten hended hrefused
    exact absurd (hdecoded.symm.trans hraises) (by simp)
  · obtain ⟨decoded, hdecoded, hbase, hat, hload⟩ :=
      runFromRow_of_terminal hwritten hlegible hended
    rw [run.toRow_eq] at hbase hat hload
    rw [Option.bind_some, loadOutcome_of_dumpOutcome h] at hload
    obtain ⟨base, endedAt, outcome, ordered⟩ := decoded
    obtain rfl : run.toRunBase = base := hbase.symm
    obtain rfl : run.endedAt = endedAt := Option.some.inj hat
    obtain rfl : outcome = run.outcome.plain := hload.2
    exact hdecoded

/-- **Persisted payloads round-trip without kind confusion.**  What is stored of an item or an
outcome is read back **if and only if it is legible**, then as it was, and its row decodes; one
alternative of each union accepts it in any case. -/
theorem payloads_round_trip :
    (∀ item : HistoryItem,
      (∀ item', loadConversationItem (itemToJson item.item) = some item' ↔
        item.item.Legible ∧ item' = item.item) ∧
      ∀ item', historyFromRow item.toRow = .ok item' ↔ item.item.Legible ∧ item' = item) ∧
    (Chooses AssistantBlock.alternatives AssistantBlock.ofJson? ∧
      ∀ block : AssistantBlock, accepted AssistantBlock.alternatives block.toJson = [block]) ∧
    (Chooses ToolResultContent.alternatives ToolResultContent.ofJson? ∧
      ∀ content : ToolResultContent,
        accepted ToolResultContent.alternatives content.toJson = [content]) ∧
    (Chooses RunOutcome.alternatives outcomeOfJson? ∧
      ∀ run : TerminalRun,
        (∀ value : ModelInstance, run.outcome = .completed (.model value) → value.dump.isSome) →
        ∃ outcomeJson, dumpOutcome run.outcome = some outcomeJson ∧
          accepted RunOutcome.alternatives outcomeJson = [run.outcome.plain] ∧
          (∀ outcome', loadOutcome outcomeJson = some outcome' ↔
            run.outcome.Legible ∧ outcome' = run.outcome.plain) ∧
          (runFromRow (run.toRow outcomeJson) =
              .ok (.terminal { run with outcome := run.outcome.plain }) ↔
            run.outcome.Legible)) := by
  refine ⟨fun item => ⟨fun _ => loadConversationItem_itemToJson, fun _ => historyFromRow_toRow⟩,
    ⟨AssistantBlock.chooses_ofJson?, AssistantBlock.accepted_toJson⟩,
    ⟨ToolResultContent.chooses_ofJson?, ToolResultContent.accepted_toJson⟩,
    RunOutcome.chooses_outcomeOfJson?, fun run hmodel => ?_⟩
  obtain ⟨outcomeJson, hdump⟩ := exists_dumpOutcome hmodel
  refine ⟨outcomeJson, hdump, RunOutcome.accepted_of_dumpOutcome hdump, fun outcome' => ?_,
    runFromRow_toRow run hdump⟩
  rw [loadOutcome_of_dumpOutcome hdump]
  simp [RunOutcome.Legible, hdump]

end Parser

/-- `deepTurn` validates, and is not read back. -/
theorem payloads_round_trip_deepTurn :
    itemOfJson? (itemToJson deepTurn) = some deepTurn ∧
      loadConversationItem (itemToJson deepTurn) = none ∧
      ∀ id sessionId runId position createdAt,
        historyFromRow (historyValues id deepTurn runId sessionId position createdAt)
          = .error (.backend (.value "conversation item")) := by
  have hload : loadConversationItem (itemToJson deepTurn) = none := by decide +kernel
  refine ⟨itemOfJson_itemToJson deepTurn, hload, fun _ _ _ _ _ => ?_⟩
  rw [historyFromRow, historyValues, hload]

end Tile
