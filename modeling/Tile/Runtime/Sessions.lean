import Tile.Providers.OpenAI.Serialization
import Tile.Store.Ledger

/-!
# Runtime/Sessions — committed history is always replayable

A session that prompt runs and forks led to holds the deltas of its runs, one after the other.  Each
delta is replayable, so the whole history is, and it serializes into calls and outputs that pair up:
`committed_history_replayable`.
-/

namespace Tile

/-! ## Histories made of deltas

Run ids are unique: `runOf` says which prompt run each one stands for. -/

/-- Every run a call finished is a prompt run, finished with its own delta. -/
def FinishesPromptRuns (runOf : String → PromptRun) (events : List StoreEvent) : Prop :=
  ∀ event ∈ events, ∀ sessionId runId outcome delta run,
    event.call = .finishRun sessionId runId outcome delta → event.reply = .ok (.finished run) →
      delta = (runOf runId).delta

/-- The items one run adds to a history, tagged with its id. -/
def runItems (runOf : String → PromptRun) (runId : String) : List (String × ConversationItem) :=
  (runOf runId).delta.map (runId, ·)

/-- The log holds the deltas of some runs, one after the other. -/
def HoldsDeltas (runOf : String → PromptRun) (entries : List Entry) : Prop :=
  ∃ runIds : List String,
    entries.map (fun entry => (entry.runId, entry.item)) = runIds.flatMap (runItems runOf)

theorem Trace.holdsDeltas [JsonParser] {runOf : String → PromptRun} {events : List StoreEvent}
    {db : Database}
    (h : Trace {} events db) (hruns : FinishesPromptRuns runOf events) :
    ∀ sessionId, HoldsDeltas runOf (db.ledger sessionId) := by
  refine h.snocInduction (motive := fun events db => FinishesPromptRuns runOf events →
    ∀ sessionId, HoldsDeltas runOf (db.ledger sessionId)) ?_ ?_ hruns
  · refine fun _ sessionId => ⟨[], ?_⟩
    rw [Database.ledger,
      Database.Valid.empty.stored_of_not_hasSession (by simp [Database.HasSession])]
    rfl
  · intro events db event db' htrace hstep ih hruns
    rw [hstep.change.ledger_eq (Trace.valid_of_empty htrace)]
    have ih := ih fun event hevent => hruns event (List.mem_append_left _ hevent)
    refine LogOp.forall_apply ih fun sessionId entries hop => ?_
    obtain ⟨runIds, hrunIds⟩ := ih sessionId
    obtain ⟨runId, delta, ⟨outcome, run, hcall, hreply, -⟩, hentries⟩ := hstep.of_append hop
    refine ⟨runIds ++ [runId], ?_⟩
    rw [List.map_append, hrunIds, hentries, hruns event (by simp) _ _ _ _ _ hcall hreply,
      List.flatMap_append, List.flatMap_singleton]
    rfl

/-! ## The committed history -/

section Deltas

variable {runOf : String → PromptRun}

theorem map_snd_runItems (runIds : List String) :
    (runIds.flatMap (runItems runOf)).map Prod.snd
      = runIds.flatMap fun runId => (runOf runId).delta := by
  rw [List.map_flatMap]
  refine List.flatMap_congr fun runId _ => ?_
  rw [runItems, List.map_map]
  exact List.map_id _

/-- Ids that are distinct in the whole history are distinct in each delta. -/
theorem nodup_of_mem {runId : String} : ∀ {runIds : List String},
    ((toolCallsOf (runIds.flatMap fun runId => (runOf runId).delta)).map (·.callId)).Nodup →
      runId ∈ runIds → ((toolCallsOf (runOf runId).delta).map (·.callId)).Nodup
  | _ :: rest, hids, hmem => by
    rw [List.flatMap_cons, toolCallsOf_append, List.map_append, List.nodup_append] at hids
    rcases List.mem_cons.mp hmem with rfl | hmem
    · exact hids.1
    · exact nodup_of_mem hids.2.1 hmem

theorem replayable_deltas : ∀ {runIds : List String},
    ((toolCallsOf (runIds.flatMap fun runId => (runOf runId).delta)).map (·.callId)).Nodup →
      Replayable (runIds.flatMap fun runId => (runOf runId).delta)
  | [], _ => ⟨[], rfl⟩
  | runId :: rest, hids => by
    have hhead := nodup_of_mem hids List.mem_cons_self
    rw [List.flatMap_cons, toolCallsOf_append, List.map_append, List.nodup_append] at hids
    exact ((runOf runId).replayable hhead).append (replayable_deltas hids.2.1)

end Deltas

/-- An entry of a concatenation is an entry of one of its parts, which goes on behind it. -/
theorem exists_part {κ α : Type} {part : κ → List α} {x : α} {after : List α} :
    ∀ {keys : List κ} {before : List α}, keys.flatMap part = before ++ x :: after →
      ∃ key ∈ keys, ∃ before' after' rest, part key = before' ++ x :: after' ∧
        after = after' ++ rest
  | [], before, h => by simp at h
  | key :: keys, before, h => by
    rw [List.flatMap_cons] at h
    rcases List.append_eq_append_iff.mp h with ⟨more, rfl, hrest⟩ | ⟨more, hpart, hmore⟩
    · obtain ⟨key', hkey', found⟩ := exists_part hrest
      exact ⟨key', List.mem_cons_of_mem _ hkey', found⟩
    · cases more with
      | nil =>
        have hrest : keys.flatMap part = [] ++ x :: after := hmore.symm
        obtain ⟨key', hkey', found⟩ := exists_part hrest
        exact ⟨key', List.mem_cons_of_mem _ hkey', found⟩
      | cons y more =>
        obtain ⟨rfl, rfl⟩ := List.cons.inj hmore
        exact ⟨key, List.mem_cons_self, before, more, _, hpart, rfl⟩

/-- **Committed history is always replayable.**  In a database that any calls led to, where every
run that was finished is a prompt run, whatever its environment did and wherever it was stopped: if
no call id occurs twice in the history of a session, every assistant turn in it is completed, and
its calls' own results follow at once, one per call, in block order.  Serialized, every
`function_call` has exactly one `function_call_output`, behind it, and there is no other output. -/
theorem committed_history_replayable [JsonParser] {runOf : String → PromptRun}
    {events : List StoreEvent} {db : Database}
    (h : Trace {} events db) (hruns : FinishesPromptRuns runOf events)
    {sessionId : String} {items : List HistoryItem} (hitems : db.history sessionId = .ok items)
    (hids : ((toolCallsOf (items.map (·.item))).map (·.callId)).Nodup) :
    (∀ before item after turn, items = before ++ item :: after → item.item = .assistant turn →
      turn.status = .completed ∧ ∃ results rest,
        after.map (·.item) = results.map .toolResult ++ rest ∧
          List.Forall₂ (ResultOf (runOf item.runId).log) turn.toolCalls results) ∧
    ∀ deserialize inputs, serializeHistoryItems deserialize (items.map (·.item)) = .ok inputs →
      (∀ callId ∈ functionCallIds inputs, (functionCallOutputIds inputs).count callId = 1) ∧
        functionCallOutputIds inputs = functionCallIds inputs ∧
        ∀ before callId output after,
          inputs = before ++ .functionCallOutput callId output :: after →
            callId ∈ functionCallIds before := by
  obtain ⟨runIds, hrunIds⟩ := Trace.holdsDeltas h hruns sessionId
  rw [h.valid_of_empty.ledger_of_history hitems] at hrunIds
  have htagged : items.map (fun item => (item.runId, item.item))
      = runIds.flatMap (runItems runOf) := by
    rw [← hrunIds, List.map_map]
    rfl
  have hall : items.map (·.item) = runIds.flatMap fun runId => (runOf runId).delta := by
    rw [← map_snd_runItems, ← htagged, List.map_map]
    rfl
  refine ⟨fun before item after turn hsplit hturn => ?turn,
    fun deserialize inputs hinputs => ?inputs⟩
  case turn =>
    rw [hsplit, List.map_append, List.map_cons] at htagged
    obtain ⟨runId, hrunId, before', after', rest, hpart, hafter⟩ := exists_part htagged.symm
    obtain ⟨deltaBefore, deltaRest, hdelta, -, hrest⟩ := List.map_eq_append_iff.mp hpart
    obtain ⟨deltaItem, deltaAfter, rfl, htag, rfl⟩ := List.map_eq_cons_iff.mp hrest
    obtain ⟨rfl, rfl⟩ := Prod.mk.inj htag
    rw [hturn] at hdelta
    obtain ⟨hcompleted, results, others, rfl, hanswers⟩ :=
      (runOf item.runId).answered (nodup_of_mem (hall ▸ hids) hrunId) hdelta
    refine ⟨hcompleted, results, others ++ rest.map Prod.snd, ?_, hanswers⟩
    have hitemsAfter := congrArg (List.map Prod.snd) hafter
    simpa [List.map_map, Function.comp_def] using hitemsAfter
  case inputs =>
    have hpairs := serialize_pairs (hall ▸ replayable_deltas (hall ▸ hids)) hinputs
    refine ⟨fun callId hcall => ?_, hpairs.outputs.trans hpairs.calls.symm, hpairs.order⟩
    rw [hpairs.calls] at hcall
    rw [hpairs.outputs]
    exact List.count_eq_one_of_mem hids hcall

/-- A run that is cancelled inside the second of two tool calls. -/
def interruptedRun : PromptRun where
  record := ⟨"r", "s", "prompt", 2, "model", "provider"⟩
  committedHistory := []
  dependencies := {
    instructions := ""
    toolExecutor := ⟨id, [{
      name := "read"
      validate := fun arguments => .valid ⟨"Input", some arguments⟩ }]⟩ }
  result := none
  script := { attempts := [{ turns := [{
    events := [.done {
      source := { provider := "provider" }
      stopReason := .toolUse
      blocks := [.toolCall { callId := "a", name := "read" },
        .toolCall { callId := "b", name := "read" }] }]
    tools := [.returns { content := [.text "content"] }, .escapes .cancelled] }] }] }

def interruptedCalls : List (Call × Ambient) :=
  [(.createSession "s", ⟨1, fun _ => "h", []⟩),
    (.startRun "s" "r" "prompt" "model" "provider", ⟨2, fun _ => "h", []⟩),
    (.finishRun "s" "r" (.aborted .cancelled) interruptedRun.delta, ⟨3, fun k => s!"h{k}", []⟩)]

theorem finishesPromptRuns_interrupted :
    FinishesPromptRuns (fun _ => interruptedRun) (play {} interruptedCalls).1 := by
  intro event hevent sessionId runId outcome delta run hcall _
  have hmem : event.call ∈ interruptedCalls.map Prod.fst :=
    play_calls interruptedCalls {} ▸ List.mem_map_of_mem hevent
  rw [hcall] at hmem
  obtain ⟨-, -, -, hdelta⟩ : sessionId = "s" ∧ runId = "r" ∧ outcome = .aborted .cancelled ∧
      delta = interruptedRun.delta := by simpa [interruptedCalls] using hmem
  exact hdelta

theorem committed_history_replayable_interrupted :
    (play {} interruptedCalls).2.historyItems.length = 4 ∧
      ∃ items, (play {} interruptedCalls).2.history "s" = .ok items ∧
        ∀ before item after turn, items = before ++ item :: after → item.item = .assistant turn →
          turn.status = .completed ∧ ∃ results rest,
            after.map (·.item) = results.map .toolResult ++ rest ∧
              List.Forall₂ (ResultOf interruptedRun.log) turn.toolCalls results := by
  have htrace := trace_play interruptedCalls {}
  have hv := Trace.valid_of_empty htrace
  have hitems := hv.history_eq (htrace.legible (by decide +kernel)) "s"
  refine ⟨by decide +kernel, _, hitems, (committed_history_replayable htrace
    finishesPromptRuns_interrupted hitems ?_).1⟩
  rw [hv.stored_items]
  decide +kernel

end Tile
