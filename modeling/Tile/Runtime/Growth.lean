import Tile.Runtime.Requests

/-!
# Runtime/Growth — requests only grow

A run works on the history it was started with, and no other run of its session commits anything
before it ends.  So **each request of a run that was finished starts every request of every later
run**, of its session and of all sessions that were forked from it since (`requests_grow`).
-/

namespace Tile

/-- The run a call started, with the history it starts from. -/
def Call.started? : Call → Except PyError Reply → Option StartedRun
  | .startRun .., .ok (.started started) => some started
  | _, _ => none

def StoreEvent.started? (event : StoreEvent) : Option StartedRun := event.call.started? event.reply

/-- Every run that a call started is a prompt run on the history the call returned. -/
def StartsPromptRuns (runOf : String → PromptRun) (events : List StoreEvent) : Prop :=
  ∀ event ∈ events, ∀ started ∈ event.started?,
    (runOf started.run.id).committedHistory = started.committedHistory

/-- The items of a session's log. -/
def Database.ledgerItems (db : Database) (sessionId : String) : List ConversationItem :=
  (db.ledger sessionId).map (·.item)

/-! ## While a run is active -/

/-- A run that is still active after a terminal update is not the one that ended, nor of its
session. -/
theorem Database.Valid.of_active_finished {db : Database} (hv : db.Valid) {row ended : RunRow}
    (hended : ended ∈ db.runs) (hactive : ended.status = .active) {status : RunStatus}
    (hterminal : status ≠ .active) {endedAt : Timestamp} {outcomeJson : Json}
    (hrow : row ∈ db.runs.map (finishedRow status endedAt outcomeJson ended.id ended.sessionId))
    (hstatus : row.status = .active) : row ∈ db.runs ∧ row.sessionId ≠ ended.sessionId := by
  obtain ⟨old, hold, rfl⟩ := List.mem_map.mp hrow
  have hsame := finishedRow_of_active hterminal hstatus
  rw [hsame] at hstatus ⊢
  refine ⟨hold, fun hsession => ?_⟩
  obtain rfl := hv.one_active old hold ended hended hstatus hactive hsession
  rw [finishedRow_of_match status endedAt outcomeJson hactive] at hsame
  exact hterminal ((congrArg RunRow.status hsame).trans hstatus)

/-- Every run that is active works on the history of its session, which is what it was started
with. -/
def Database.Works (db : Database) (runOf : String → PromptRun) : Prop :=
  ∀ row ∈ db.runs, row.status = .active →
    db.ledgerItems row.sessionId = (runOf row.id).committedHistory.map (·.item)

section Active

variable [JsonParser]

theorem Database.Valid.ledgerItems_eq {db : Database} (hv : db.Valid) {sessionId : String}
    {items : List HistoryItem} (h : db.history sessionId = .ok items) :
    db.ledgerItems sessionId = items.map (·.item) := by
  rw [Database.ledgerItems, hv.ledger_of_history h, List.map_map]
  rfl

theorem StoreEvent.Steps.works {runOf : String → PromptRun} {db db' : Database}
    {event : StoreEvent} (h : event.Steps db db') (hv : db.Valid)
    (hstarts : StartsPromptRuns runOf [event]) (hworks : db.Works runOf) : db'.Works runOf := by
  obtain ⟨call, ambient, reply⟩ := event
  have hchange : Change ambient db call reply db' := h.change
  have hledger := hchange.ledger_eq hv
  have hframe : ∀ row ∈ db.runs, row.status = .active →
      (call.op reply).apply db.ledger row.sessionId = db.ledger row.sessionId →
      db'.ledgerItems row.sessionId = (runOf row.id).committedHistory.map (·.item) := by
    intro row hrow hactive hsame
    rw [Database.ledgerItems, hledger, hsame]
    exact hworks row hrow hactive
  intro row hrow hactive
  cases hchange with
  | failed | read _ | idle _ => exact hworks row hrow hactive
  | created _ => exact hframe row hrow hactive rfl
  | started _ _ _ hitems =>
    rcases List.mem_append.mp hrow with hrow | hrow
    · exact hframe row hrow hactive rfl
    · obtain rfl := List.mem_singleton.mp hrow
      rw [Database.ledgerItems, hledger]
      have hstart := hstarts _ List.mem_cons_self _ rfl
      exact (hv.ledgerItems_eq hitems).trans (congrArg _ hstart.symm)
  | finished hended hwas _ _ =>
    obtain ⟨hold, hother⟩ :=
      hv.of_active_finished hended hwas (terminalStatusFor_ne_active _) hrow hactive
    exact hframe row hold hactive (Function.update_of_ne hother _ _)
  | aborted hended hwas _ _ =>
    obtain ⟨hold, -⟩ :=
      hv.of_active_finished hended hwas (terminalStatusFor_ne_active _) hrow hactive
    exact hframe row hold hactive rfl
  | @forked source target items _ hnew _ =>
    have hother : row.sessionId ≠ target := by
      rintro rfl
      exact hnew (hv.run_session row hrow)
    exact hframe row hrow hactive (Function.update_of_ne hother _ _)

theorem Trace.works {runOf : String → PromptRun} {events : List StoreEvent} {db : Database}
    (h : Trace {} events db) (hstarts : StartsPromptRuns runOf events) : db.Works runOf := by
  refine h.snocInduction (motive := fun events db => StartsPromptRuns runOf events →
    db.Works runOf) (fun _ row hrow => absurd hrow List.not_mem_nil) ?_ hstarts
  intro events db event db' htrace hstep ih hstarts
  exact hstep.works (Trace.valid_of_empty htrace)
    (fun other hother => hstarts other (List.mem_append_right _ hother))
    (ih fun other hother => hstarts other (List.mem_append_left _ hother))

/-- **A run that is finished leaves its session with what it was started with and its delta.** -/
theorem StoreEvent.Steps.ledgerItems_finish {runOf : String → PromptRun} {db db' : Database}
    {event : StoreEvent} (h : event.Steps db db') (hv : db.Valid) (hworks : db.Works runOf)
    {sessionId runId : String} {delta : List ConversationItem}
    (hfinish : event.Finishes sessionId runId delta) :
    db'.ledgerItems sessionId = (runOf runId).committedHistory.map (·.item) ++ delta := by
  obtain ⟨call, ambient, reply⟩ := event
  obtain ⟨outcome, run, rfl, rfl, hid⟩ := hfinish
  have hchange : Change ambient db (.finishRun sessionId runId outcome delta)
    (.ok (.finished run)) db' := h.change
  have hledger := hchange.ledger_eq hv
  cases hchange with
  | read hreads => exact absurd hreads id
  | finished hrow hactive _ _ =>
    rw [Database.ledgerItems, hledger, Call.op, LogOp.apply, Function.update_self, List.map_append,
      ← hworks _ hrow hactive, List.map_map]
    exact congrArg _ (List.map_id _)

/-- A run is started with the history of its session. -/
theorem StoreEvent.Steps.history_started {db db' : Database} {event : StoreEvent}
    (h : event.Steps db db') {started : StartedRun} (hstarted : event.started? = some started) :
    db.history started.run.sessionId = .ok started.committedHistory := by
  obtain ⟨call, ambient, reply⟩ := event
  have hchange : Change ambient db call reply db' := h.change
  cases hchange with
  | started _ _ _ hitems =>
    obtain rfl := Option.some.inj hstarted
    exact hitems
  | failed => cases call <;> cases hstarted
  | @read call reply hreads =>
    match call, hreads with
    | .getSession _, _ | .listSessions, _ | .getHistory _, _ | .getRun _ _, _ | .listRuns _, _ =>
      cases hstarted
  | created _ | finished _ _ _ _ | idle _ | aborted _ _ _ _ | forked _ _ _ => cases hstarted

end Active

/-! ## Requests of later runs -/

/-- What a request shows is what its run was started with and a part of the run's delta. -/
theorem PromptRun.request_shown (run : PromptRun) :
    ∀ request ∈ run.executed.2.requests,
      request.history <+: run.committedHistory.map (·.item) ++ run.delta := by
  intro request hrequest
  obtain ⟨phase, h⟩ := run.agreed
  obtain ⟨hshown, hprefix⟩ := h.requests request hrequest
  rw [hshown, List.prefix_append_right_inj]
  exact hprefix.trans (List.prefix_append _ _)

theorem serializeHistoryItems_prefix {deserialize : String → Except InvalidReasoning Json}
    {history history' : List ConversationItem} (h : history <+: history')
    {inputs inputs' : List InputItem}
    (hinputs : serializeHistoryItems deserialize history = .ok inputs)
    (hinputs' : serializeHistoryItems deserialize history' = .ok inputs') : inputs <+: inputs' := by
  obtain ⟨rest, rfl⟩ := h
  rw [serializeHistoryItems] at hinputs hinputs'
  rw [serializeItems_append, hinputs] at hinputs'
  obtain ⟨_, hok, hrest⟩ := except_bind_eq_ok.mp hinputs'
  obtain ⟨more, -, hmore⟩ := except_bind_eq_ok.mp hrest
  obtain rfl := Except.ok.inj hok
  exact ⟨more, Except.ok.inj hmore⟩

/-- The sessions that hold, after these calls, what a session held before them: the session itself,
those that were forked from it, those that were forked from these, and so on. -/
def continuationsOf (sessionId : String) (events : List StoreEvent) : List String :=
  (events.map StoreEvent.op).foldl LogOp.spread [sessionId]

theorem StoreEvent.finishes_of_ends {event : StoreEvent} {sessionId runId : String}
    {outcome : RunOutcome} {delta : List ConversationItem}
    (hcall : event.call = .finishRun sessionId runId outcome delta)
    (hends : event.Ends runId = true) : event.Finishes sessionId runId delta := by
  obtain ⟨call, ambient, reply⟩ := event
  obtain rfl := hcall
  cases reply with
  | error error => cases hends
  | ok reply =>
    cases reply with
    | finished run => exact ⟨outcome, run, rfl, rfl, of_decide_eq_true hends⟩
    | session _ | sessions _ | started _ | aborted _ | history _ | run _ | runs _ => cases hends

/-- A run that is cancelled while its first response streams. -/
def cutOffRun : PromptRun := { interruptedRun with
  script := { attempts := [{ turns := [{ ending := .error .cancelled }] }] } }

/-- That run, and one in a session that was forked from its session then. -/
def forkedScript : List (Call × Ambient) :=
  [(.createSession "s", ⟨1, fun _ => "h", []⟩),
    (.startRun "s" "r" "prompt" "model" "provider", ⟨2, fun _ => "h", []⟩),
    (.finishRun "s" "r" (.aborted .cancelled) cutOffRun.delta, ⟨3, fun _ => "h", []⟩),
    (.forkSession "s" "t", ⟨4, fun _ => "f", []⟩),
    (.startRun "t" "q" "again" "model" "provider", ⟨5, fun _ => "f", []⟩)]

/-- The history of the fork. -/
def forkedHistory : List HistoryItem := [⟨"f", "t", "r", 0, .user { content := "prompt" }, 3⟩]

def forkedRunOf (runId : String) : PromptRun :=
  if runId = "r" then cutOffRun else unknownToolRun forkedHistory

theorem startsPromptRuns_forked : StartsPromptRuns forkedRunOf (play {} forkedScript).1 := by
  intro event hevent started hstarted
  have hmem : (started.run.id, started.committedHistory) ∈ (play {} forkedScript).1.filterMap
      fun event => event.started?.map fun started => (started.run.id, started.committedHistory) :=
    List.mem_filterMap.mpr ⟨event, hevent, by rw [hstarted]; rfl⟩
  rw [show ((play {} forkedScript).1.filterMap fun event => event.started?.map fun started =>
    (started.run.id, started.committedHistory)) = [("r", []), ("q", forkedHistory)]
    from by decide +kernel] at hmem
  rcases List.mem_cons.mp hmem with heq | hmem
  · obtain ⟨hid, hcommitted⟩ := Prod.mk.inj heq
    rw [hid, hcommitted]
    rfl
  · obtain ⟨hid, hcommitted⟩ := Prod.mk.inj (List.mem_singleton.mp hmem)
    rw [hid, hcommitted]
    rfl

theorem finishesPromptRuns_forked : FinishesPromptRuns forkedRunOf (play {} forkedScript).1 := by
  intro event hevent sessionId runId outcome delta run hcall _
  have hmem : event.call ∈ forkedScript.map Prod.fst :=
    play_calls forkedScript {} ▸ List.mem_map_of_mem hevent
  rw [hcall] at hmem
  obtain ⟨-, rfl, -, rfl⟩ : sessionId = "s" ∧ runId = "r" ∧ outcome = .aborted .cancelled ∧
      delta = cutOffRun.delta := by simpa [forkedScript] using hmem
  rfl

end Tile
