import Tile.Runtime.Finalization
import Tile.Store.Ledger

/-!
# Runtime/Durability — the live result, the event log and the database agree

The result of a run, the event that closes its log and the rows it leaves in the database are three
copies of one fact.  They agree in every interleaving with other users of the database, whether or
not a later read decodes those rows: `durable_agreement`.
-/

namespace Tile

/-! ## Terminal records -/

/-- The row of the run is terminal, with the text of this outcome. -/
def Database.EndedWith (db : Database) (runId : String) (outcome : RunOutcome) : Prop :=
  ∃ row ∈ db.runs, row.id = runId ∧ row.status = terminalStatusFor outcome ∧
    ∃ outcomeJson, dumpOutcome outcome = some outcomeJson ∧ row.outcomeJson = some outcomeJson

theorem Database.EndedWith.evolves {db db' : Database} {runId : String} {outcome : RunOutcome}
    (h : db.EndedWith runId outcome) (hevolves : db.Evolves db') : db'.EndedWith runId outcome := by
  obtain ⟨row, hrow, hid, hstatus, hstored⟩ := h
  obtain ⟨row', hrow', -, hkeep⟩ := hevolves row hrow
  obtain rfl := hkeep (hstatus ▸ terminalStatusFor_ne_active outcome)
  exact ⟨row', hrow', hid, hstatus, hstored⟩

theorem Database.EndedWith.plain {db : Database} {runId : String} {outcome : RunOutcome}
    (h : db.EndedWith runId outcome) : db.EndedWith runId outcome.plain := by
  obtain ⟨row, hrow, hid, hstatus, outcomeJson, hdump, hjson⟩ := h
  exact ⟨row, hrow, hid, hstatus.trans (terminalStatusFor_plain outcome).symm, outcomeJson,
    dumpOutcome_plain hdump, hjson⟩

/-! ## The delta of a run in a history -/

/-- The history rows of a session, in order: each payload with the run it is of. -/
def Database.deltas (db : Database) (sessionId : String) : List (String × Json) :=
  (db.historyRows sessionId).map fun row => (row.runId, row.payloadJson)

/-- What the rows of a run's delta hold. -/
def deltaPayloads (runId : String) (delta : List ConversationItem) : List (String × Json) :=
  delta.map fun item => (runId, itemToJson item)

/-- What the row of an entry holds. -/
def Entry.payload (entry : Entry) : String × Json := (entry.runId, itemToJson entry.item)

/-- What a call appends to the history of a session. -/
def StoreEvent.deltas (event : StoreEvent) (sessionId : String) : List (String × Json) :=
  (event.op.appended sessionId).map Entry.payload

/-- The run's rows in the history are its delta: once, complete and in one piece. -/
def HoldsOnce (history : List (String × Json)) (runId : String)
    (delta : List ConversationItem) : Prop :=
  ∃ before after, history = before ++ deltaPayloads runId delta ++ after ∧
    ∀ entry ∈ before ++ after, entry.1 ≠ runId

/-- The history has no row of the run. -/
def HoldsNone (history : List (String × Json)) (runId : String) : Prop :=
  ∀ entry ∈ history, entry.1 ≠ runId

theorem Database.Valid.deltas_eq {db : Database} (hv : db.Valid) (sessionId : String) :
    db.deltas sessionId = (db.ledger sessionId).map Entry.payload := by
  rw [Database.deltas, hv.historyRows_eq, ← hv.stored_toRow, Database.ledger, List.map_map,
    List.map_map]
  rfl

theorem HoldsNone.append_holdsOnce {history own : List (String × Json)} {runId : String}
    {delta : List ConversationItem} (h : HoldsNone history runId)
    (hown : HoldsOnce own runId delta) : HoldsOnce (history ++ own) runId delta := by
  obtain ⟨before, after, rfl, hother⟩ := hown
  refine ⟨history ++ before, after, by simp, fun entry hentry => ?_⟩
  rw [List.append_assoc, List.mem_append] at hentry
  exact hentry.elim (h entry) (hother entry)

theorem HoldsOnce.not_holdsNone {history : List (String × Json)} {runId : String}
    {delta : List ConversationItem} (h : HoldsOnce history runId delta) (hdelta : delta ≠ []) :
    ¬ HoldsNone history runId := by
  obtain ⟨before, after, rfl, -⟩ := h
  obtain ⟨item, hitem⟩ := List.exists_mem_of_ne_nil delta hdelta
  have hmem : (runId, itemToJson item) ∈ deltaPayloads runId delta := List.mem_map_of_mem hitem
  exact fun hnone => hnone (runId, itemToJson item) (by simp [hmem]) rfl

/-- An active run has no item in any history. -/
theorem Database.Valid.holdsNone_of_active {db : Database} (hv : db.Valid) {runId : String}
    (h : db.Active runId) (sessionId : String) : HoldsNone (db.deltas sessionId) runId := by
  intro entry hentry hid
  rw [Database.deltas, hv.historyRows_eq] at hentry
  obtain ⟨row, hrow, rfl⟩ := List.mem_map.mp hentry
  obtain ⟨run, hrun, hrunId, hended⟩ := hv.history_run row (List.mem_of_mem_filter hrow)
  exact hv.not_active_of_ended ⟨run, hrun, hrunId.trans hid, hended⟩ h

namespace StoreEvent.Finishes

variable {event : StoreEvent} {sessionId runId : String} {delta : List ConversationItem}

theorem ended? (h : event.Finishes sessionId runId delta) :
    ∃ run, event.ended? = some run ∧ run.id = runId := by
  obtain ⟨outcome, run, hcall, hreply, hid⟩ := h
  exact ⟨run, by rw [StoreEvent.ended?, hcall, hreply]; rfl, hid⟩

theorem ends (h : event.Finishes sessionId runId delta) : event.Ends runId = true := by
  obtain ⟨run, hrun, hid⟩ := h.ended?
  simp [StoreEvent.Ends, hrun, hid]

theorem deltas_eq (h : event.Finishes sessionId runId delta) :
    event.deltas sessionId = deltaPayloads runId delta := by
  obtain ⟨outcome, run, hcall, hreply, rfl⟩ := h
  have hop : event.op = .append sessionId (delta.map fun item => ⟨run.id, item, run.endedAt⟩) := by
    rw [StoreEvent.op, hcall, hreply]
    rfl
  rw [StoreEvent.deltas, hop, LogOp.appended, if_pos rfl, List.map_map]
  rfl

end StoreEvent.Finishes

/-! ## The calls that end a run -/

/-- The call aborted the run. -/
def StoreEvent.Aborts (event : StoreEvent) (runId : String) : Prop :=
  ∃ sessionId run, event.call = .abortActiveRun sessionId ∧
    event.reply = .ok (.aborted (some run)) ∧ run.id = runId

theorem StoreEvent.Aborts.ends {event : StoreEvent} {runId : String} (h : event.Aborts runId) :
    event.Ends runId = true := by
  obtain ⟨sessionId, run, hcall, hreply, hid⟩ := h
  simp [StoreEvent.Ends, StoreEvent.ended?, Call.ended?, hcall, hreply, hid]

theorem eq_of_countP_le_one {α : Type} {p : α → Bool} {l : List α} (h : l.countP p ≤ 1) {a b : α}
    (ha : a ∈ l) (hb : b ∈ l) (hpa : p a = true) (hpb : p b = true) : a = b := by
  obtain ⟨before, after, rfl⟩ := List.append_of_mem ha
  rw [List.countP_append, List.countP_cons, if_pos hpa] at h
  by_contra hne
  have hb : b ∈ before ++ after := by
    simpa [Ne.symm hne] using hb
  have hpos : 0 < (before ++ after).countP p := List.countP_pos_iff.mpr ⟨b, hb, hpb⟩
  rw [List.countP_append] at hpos
  omega

/-- A run that was aborted was not finished. -/
theorem StoreEvent.Aborts.not_finishes {events : List StoreEvent} {runId : String}
    (honce : endings runId events ≤ 1) {event other : StoreEvent} (h : event.Aborts runId)
    (hevent : event ∈ events) (hother : other ∈ events) {sessionId : String}
    {delta : List ConversationItem} : ¬ other.Finishes sessionId runId delta := by
  intro hfinishes
  obtain rfl := eq_of_countP_le_one honce hevent hother h.ends hfinishes.ends
  obtain ⟨_, _, hcall, -⟩ := h
  obtain ⟨_, _, hcall', -⟩ := hfinishes
  cases hcall.symm.trans hcall'

/-! ## What holds at each stage -/

namespace RunWorld

variable {world : RunWorld}

/-- The log has no terminal event, and nothing is published. -/
def Open (world : RunWorld) : Prop :=
  world.execution.finalized = false ∧ ∀ event ∈ world.execution.events, event.isTerminal = false

/-- The result is published, and its event closes the log. -/
def Closed (world : RunWorld) (result : RunResult) : Prop :=
  world.execution.wait = some result ∧ ∃ inner,
    world.execution.events = inner ++ [result.terminalEvent] ∧
      ∀ event ∈ inner, event.isTerminal = false

/-- What a result stands for: an outcome, for the durable record; a fault, for a delta that did not
get into the history. -/
def Supports (world : RunWorld) : RunResult → Prop
  | .ended outcome => world.db.EndedWith world.execution.record.id outcome.plain
  | .faulted _ _ => ¬ world.Committed

/-- What holds of a run execution at a stage. -/
def Holds (world : RunWorld) : Stage → Prop
  | .executing | .ended _ | .reconciling => world.Open ∧ ¬ world.Committed
  | .concluding result => world.Open ∧ world.Supports result
  | .finalized => ∃ result, world.Closed result ∧ world.Supports result

theorem mem_called {party : Party} {event other : StoreEvent} {db : Database} :
    (.own, other) ∈ (world.called party event db).calls ↔
      (.own, other) ∈ world.calls ∨ party = .own ∧ other = event := by
  simp [called, eq_comm]

theorem Holds.mono {world' : RunWorld} {stage : Stage} (h : world.Holds stage)
    (hexecution : world'.execution = world.execution)
    (hcommitted : world'.Committed → world.Committed)
    (hsupports : ∀ result, world.Supports result → world'.Supports result) :
    world'.Holds stage := by
  have hopen : world.Open → world'.Open := by
    rw [Open, Open, hexecution]
    exact id
  cases stage with
  | executing | ended | reconciling => exact ⟨hopen h.1, fun hown => h.2 (hcommitted hown)⟩
  | concluding result => exact ⟨hopen h.1, hsupports result h.2⟩
  | finalized =>
    obtain ⟨result, hclosed, hresult⟩ := h
    refine ⟨result, ?_, hsupports result hresult⟩
    rwa [Closed, hexecution]

theorem delta_observe_ne_nil {history : RunHistory} (h : history.delta ≠ []) (event : AgentEvent) :
    (history.observe event).delta ≠ [] := by
  simp [RunHistory.observe, RunHistory.extend, h]

theorem stageAfterFinish_error (error : PyError) :
    stageAfterFinish (.error error) = .reconciling ∨
      stageAfterFinish (.error error) = .concluding (.ofError error) := by
  unfold stageAfterFinish
  split
  · next heq => cases heq
  · exact .inl rfl
  · next heq => exact .inr (by rw [Except.error.inj heq])

end RunWorld

theorem map_apply {α β : Type} (f : α → β) (m : Sql α) (c : Connection) :
    (f <$> m) c = ((m c).1.map f, (m c).2) := by
  change (m >>= fun a => pure (f a)) c = _
  rcases hm : m c with ⟨e | a, c'⟩
  · exact Effect.bind_of_error hm _
  · exact Effect.bind_of_ok hm _

section Parser

variable [JsonParser]

/-! ## What is read back -/

/-- What is read of a terminal row is the outcome it stores, in plain form. -/
theorem RunRow.Written.read {row : RunRow} {record : RunRecord} (h : row.Written)
    (hended : row.status ≠ .active) (hrow : runFromRow row = .ok record) {outcome : RunOutcome}
    {outcomeJson : Json} (hdump : dumpOutcome outcome = some outcomeJson)
    (hjson : row.outcomeJson = some outcomeJson) :
    ∃ run, record = .terminal run ∧ run.outcome = outcome.plain := by
  have hlegible : row.Legible := by
    by_contra hrefused
    exact absurd (hrow.symm.trans (runFromRow_of_not_legible h hended hrefused)) (by simp)
  obtain ⟨run, hrun, -, -, hload⟩ := runFromRow_of_terminal h hlegible hended
  rw [hjson, Option.bind_some, loadOutcome_of_dumpOutcome hdump] at hload
  exact ⟨run, Except.ok.inj (hrow.symm.trans hrun), hload.2⟩

theorem Database.EndedWith.read {db : Database} {runId : String} {outcome : RunOutcome}
    (h : db.EndedWith runId outcome) (hv : db.Valid) {sessionId : String} {ambient : Ambient}
    {record : RunRecord}
    (hrun : ((Call.getRun sessionId runId).run ambient db).1 = .ok (.run record)) :
    ∃ run, record = .terminal run ∧ run.outcome = outcome.plain := by
  obtain ⟨row, hrow, hid, hstatus, outcomeJson, hdump, hjson⟩ := h
  obtain ⟨found, record', hfound, hread, hreply⟩ := getRun_eq_ok (Prod.ext hrun rfl)
  obtain rfl := Reply.run.inj hreply
  obtain ⟨hmem, -, hid'⟩ := db.run?_eq_some hfound
  obtain rfl := hv.run_unique hmem hrow (hid'.trans hid.symm)
  exact (hv.run_written found hmem).read (hstatus ▸ terminalStatusFor_ne_active outcome) hread
    hdump hjson

/-- A row that is read as terminal stores the outcome that was read. -/
theorem Database.Valid.endedWith_of_read {db : Database} (hv : db.Valid) {row : RunRow}
    (hrow : row ∈ db.runs) {run : TerminalRun} (hread : runFromRow row = .ok (.terminal run)) :
    db.EndedWith row.id run.outcome.plain := by
  have hwritten := hv.run_written row hrow
  rcases hwritten with ⟨hactive, -⟩ | ⟨-, outcomeJson, outcome, -, hjson, hdump, hstatus, -⟩
  · rw [runFromRow_of_active (hv.run_written row hrow) hactive] at hread
    cases hread
  · have hended : row.status ≠ .active := hstatus ▸ terminalStatusFor_ne_active outcome
    obtain ⟨run', hrun', houtcome⟩ := (hv.run_written row hrow).read hended hread hdump hjson
    obtain rfl := RunRecord.terminal.inj hrun'
    have hstored : db.EndedWith row.id outcome := ⟨row, hrow, rfl, hstatus.symm, _, hdump, hjson⟩
    exact houtcome ▸ hstored.plain.plain

/-- **A committed finish** leaves the row of the record it returned. -/
theorem StoreEvent.Steps.endedWith {db db' : Database} {event : StoreEvent} (h : event.Steps db db')
    (hv : db'.Valid) {run : TerminalRun} (hrun : event.ended? = some run) :
    db'.EndedWith run.id run.outcome.plain := by
  obtain ⟨row, hrow, hstores⟩ := h.stores hrun
  have hstored : db'.EndedWith run.id run.outcome := by
    rcases hv.run_written row hrow with ⟨hactive, -⟩ | ⟨-, outcomeJson, -, -, hjson, -⟩
    · exact absurd hactive hstores.ended
    · exact ⟨row, hrow, congrArg RunBase.id hstores.1, hstores.2.1, outcomeJson,
        hstores.2.2.2.symm.trans hjson, hjson⟩
  exact hstored.plain

/-! ## The deltas of a trace -/

theorem Trace.deltas_eq {db db' : Database} {events : List StoreEvent} (h : Trace db events db')
    (hv : db.Valid) {sessionId : String} (hs : db.HasSession sessionId) :
    db'.deltas sessionId = db.deltas sessionId ++ events.flatMap (·.deltas sessionId) := by
  rw [(h.valid hv).deltas_eq, hv.deltas_eq, h.ledger_grows hv hs, List.map_append,
    List.map_flatMap]
  rfl

/-- **What a call appends**: nothing, or the delta of the run it finished. -/
theorem StoreEvent.Steps.deltas {db db' : Database} {event : StoreEvent} (h : event.Steps db db')
    (sessionId : String) : event.deltas sessionId = [] ∨
      ∃ runId delta, event.Finishes sessionId runId delta ∧
        event.deltas sessionId = deltaPayloads runId delta := by
  rw [StoreEvent.deltas]
  cases hop : event.op with
  | branch | skip => exact .inl rfl
  | append sessionId' entries =>
    by_cases hs : sessionId' = sessionId
    · subst hs
      obtain ⟨runId, delta, hfinishes, hentries⟩ := h.of_append hop
      refine .inr ⟨runId, delta, hfinishes, ?_⟩
      have hpayloads := congrArg (List.map fun entry => (entry.1, itemToJson entry.2)) hentries
      rw [List.map_map, List.map_map] at hpayloads
      rw [LogOp.appended, if_pos rfl]
      exact hpayloads
    · exact .inl (by rw [LogOp.appended, if_neg hs]; rfl)

/-- Every event of a trace is a step of it. -/
theorem Trace.steps_of_mem {db db' : Database} {events : List StoreEvent} (h : Trace db events db')
    {event : StoreEvent} (hevent : event ∈ events) : ∃ d d', event.Steps d d' := by
  obtain ⟨before, after, rfl⟩ := List.append_of_mem hevent
  obtain ⟨d, d', -, hstep, -⟩ := h.split_at
  exact ⟨d, d', hstep⟩

/-- Calls that do not finish a run append no item of it. -/
theorem Trace.holdsNone {db db' : Database} {events : List StoreEvent} (h : Trace db events db')
    {sessionId runId : String}
    (hnone : ∀ event ∈ events, ∀ delta, ¬ event.Finishes sessionId runId delta) :
    HoldsNone (events.flatMap (·.deltas sessionId)) runId := by
  rintro ⟨runId', payload⟩ hentry rfl
  obtain ⟨event, hevent, hentry⟩ := List.mem_flatMap.mp hentry
  obtain ⟨d, d', hstep⟩ := h.steps_of_mem hevent
  rcases hstep.deltas sessionId with hnothing | ⟨runId, delta, hfinishes, hdelta⟩
  · simp [hnothing] at hentry
  · obtain ⟨_, _, heq⟩ := List.mem_map.mp (hdelta ▸ hentry)
    obtain rfl : runId = runId' := congrArg Prod.fst heq
    exact hnone event hevent delta hfinishes

/-- A run ends once, so the call that finished it is the only one to append an item of it. -/
theorem Trace.holdsOnce {db db' : Database} {events : List StoreEvent} (h : Trace db events db')
    {sessionId runId : String} (honce : endings runId events ≤ 1) {event : StoreEvent}
    (hevent : event ∈ events) {delta : List ConversationItem}
    (hfinishes : event.Finishes sessionId runId delta) :
    HoldsOnce (events.flatMap (·.deltas sessionId)) runId delta := by
  obtain ⟨before, after, rfl⟩ := List.append_of_mem hevent
  obtain ⟨d, d', hbefore, -, hafter⟩ := h.split_at
  have hsplit : endings runId (before ++ event :: after)
      = endings runId before + (endings runId after + 1) := by
    rw [endings, List.countP_append, List.countP_cons, if_pos hfinishes.ends]
    rfl
  have hnone : ∀ events : List StoreEvent, endings runId events = 0 →
      ∀ other ∈ events, ∀ delta, ¬ other.Finishes sessionId runId delta :=
    fun events hzero other hother delta hother' =>
      List.countP_eq_zero.mp hzero other hother hother'.ends
  refine ⟨before.flatMap (·.deltas sessionId), after.flatMap (·.deltas sessionId), ?_, ?_⟩
  · rw [List.flatMap_append, List.flatMap_cons, hfinishes.deltas_eq, List.append_assoc]
  · intro entry hentry
    rcases List.mem_append.mp hentry with hentry | hentry
    · exact Trace.holdsNone hbefore (hnone before (by omega)) entry hentry
    · exact Trace.holdsNone hafter (hnone after (by omega)) entry hentry

/-! ## The steps of a run execution -/

theorem Call.run_map {β : Type} {call : Call} {ambient : Ambient} {f : β → Reply} {m : Sql β}
    (h : call.method ambient = f <$> m) (db : Database) :
    call.run ambient db = ((m { committed := db, faults := ambient.faults }).1.map f,
      (m { committed := db, faults := ambient.faults }).2.committed) := by
  rw [Call.run, h, map_apply]

/-- A `finish_run` that returned finished the run it names. -/
theorem StoreEvent.Steps.finishes {db db' : Database} {event : StoreEvent} (h : event.Steps db db')
    {sessionId runId : String} {outcome : RunOutcome} {delta : List ConversationItem}
    {run : TerminalRun} (hcall : event.call = .finishRun sessionId runId outcome delta)
    (hreply : event.reply = .ok (.finished run)) : event.Finishes sessionId runId delta := by
  refine ⟨outcome, run, hcall, hreply, ?_⟩
  obtain ⟨call, ambient, reply⟩ := event
  obtain rfl : call = _ := hcall
  obtain rfl : reply = _ := hreply
  obtain ⟨row, active, outcomeJson, sessionRow, hrow, hactive, -, -, hrecord, -⟩ :=
    finishRun_eq_ok h
  obtain rfl : run = terminalRunRecord ambient.now active outcome := by simpa using hrecord
  rw [terminalRunRecord_id, congrArg RunBase.id (runFromRow_eq_active hactive).2]
  exact (db.run?_eq_some hrow).2.2

namespace RunWorld

variable (world : RunWorld)

theorem play_append (schedule later : List RunAct) :
    world.play (schedule ++ later) = (world.play schedule).play later := List.foldl_append

theorem play_emits {world : RunWorld} (hstage : world.stage = .executing) {inner : List AgentEvent}
    (hinner : ∀ event ∈ inner, event.isLifecycle = false) :
    world.play (inner.map .emit) = { world with execution := world.execution.emitAll inner } := by
  induction inner generalizing world with
  | nil => rfl
  | cons event inner ih =>
    have hact : world.act (.emit event) = { world with execution := world.execution.emit event } :=
      if_pos ⟨hstage, hinner event List.mem_cons_self⟩
    rw [List.map_cons, play, List.foldl_cons, hact]
    exact ih hstage fun other hother => hinner other (List.mem_cons_of_mem _ hother)

theorem callOther_eq (call : Call) (ambient : Ambient) : ∃ event db, event.Steps world.db db ∧
    world.callOther call ambient = world.called .other event db :=
  ⟨⟨call, ambient, (call.run ambient world.db).1⟩, (call.run ambient world.db).2, rfl, rfl⟩

theorem callFinish_eq (taskEnd : TaskEnd) (ambient : Ambient) : ∃ event reply db,
    event.Steps world.db db ∧ event.reply = reply.map .finished ∧
      event.call = .finishRun world.execution.record.sessionId world.execution.record.id
        (terminalOutcome taskEnd) world.execution.heal.history.delta ∧
      world.callFinish taskEnd ambient = { world.called .own event db with
        execution := world.execution.heal, stage := stageAfterFinish reply } := by
  have hrun : (Call.finishRun world.execution.record.sessionId world.execution.record.id
      (terminalOutcome taskEnd) world.execution.heal.history.delta).run ambient world.db = _ :=
    Call.run_map rfl world.db
  exact ⟨⟨_, ambient, _⟩, _, _, hrun, rfl, rfl, rfl⟩

theorem callRead_eq (ambient : Ambient) : ∃ event reply db,
    event.Steps world.db db ∧ event.reply = reply.map .run ∧
      event.call = .getRun world.execution.record.sessionId world.execution.record.id ∧
      world.callRead ambient = { world.called .own event db with
        stage := .concluding (endedResult world.execution.record.id reply) } := by
  have hrun : (Call.getRun world.execution.record.sessionId world.execution.record.id).run ambient
      world.db = _ := Call.run_map rfl world.db
  exact ⟨⟨_, ambient, _⟩, _, _, hrun, rfl, rfl, rfl⟩

end RunWorld

/-! ## The invariant -/

namespace RunWorld

variable {start : Database} {record : ActiveRun} {world : RunWorld}

/-- The invariant of a run admitted as `record` in the database `start`. -/
structure Keeps (start : Database) (record : ActiveRun) (world : RunWorld) : Prop where
  identity : world.execution.record = record
  trace : Trace start world.events world.db
  delta : world.execution.history.delta ≠ []
  own : ∀ event run, (.own, event) ∈ world.calls → event.reply = .ok (.finished run) →
    event.Finishes record.sessionId record.id world.execution.history.delta
  stage : world.Holds world.stage

theorem Keeps.trace_called (h : world.Keeps start record) {party : Party} {event : StoreEvent}
    {db : Database} (hstep : event.Steps world.db db) :
    Trace start (world.called party event db).events db := by
  rw [events, called, List.map_append]
  exact Run.snoc h.trace hstep

/-- **Another process's call** undoes no terminal record. -/
theorem Keeps.other (h : world.Keeps start record) {event : StoreEvent} {db : Database}
    (hstep : event.Steps world.db db) :
    (world.called .other event db).Keeps start record := by
  have hcommitted : (world.called .other event db).Committed ↔ world.Committed := by
    simp [Committed, mem_called]
  refine ⟨h.identity, h.trace_called hstep, h.delta, fun other run hother => ?_,
    h.stage.mono rfl hcommitted.mp ?_⟩
  · exact h.own other run ((mem_called.mp hother).resolve_right (by simp))
  · rintro (outcome | ⟨_, _⟩) hresult
    · exact Database.EndedWith.evolves hresult hstep.change.evolves
    · exact fun hown => hresult (hcommitted.mp hown)

/-- **An inner event** leaves the log open. -/
theorem Keeps.emit (h : world.Keeps start record) (hstage : world.stage = .executing)
    {event : AgentEvent} (hevent : event.isLifecycle = false) :
    { world with execution := world.execution.emit event }.Keeps start record := by
  obtain ⟨⟨hopen, hlog⟩, hcommitted⟩ : world.Holds .executing := hstage ▸ h.stage
  refine ⟨h.identity, h.trace, delta_observe_ne_nil h.delta event, fun other run hother hreply =>
    absurd ⟨other, run, hother, hreply⟩ hcommitted, ?_⟩
  have hterminal : event.isTerminal = false := by
    rw [AgentEvent.isLifecycle, Bool.or_eq_false_iff] at hevent
    exact hevent.2
  suffices hholds : { world with execution := world.execution.emit event }.Holds .executing from
    hstage ▸ hholds
  refine ⟨⟨hopen, ?_⟩, hcommitted⟩
  simpa [or_imp, forall_and] using ⟨hlog, hterminal⟩

/-- **The end of the task**, however it ended. -/
theorem Keeps.endTask (h : world.Keeps start record) (hstage : world.stage = .executing)
    (taskEnd : TaskEnd) : { world with stage := .ended taskEnd }.Keeps start record :=
  have hholds : world.Holds .executing := hstage ▸ h.stage
  ⟨h.identity, h.trace, h.delta, h.own, hholds⟩

/-- **The own `finish_run`**, whatever it returns or raises. -/
theorem Keeps.finish (h : world.Keeps start record) (hv : start.Valid) {taskEnd : TaskEnd}
    (hstage : world.stage = .ended taskEnd) (ambient : Ambient) :
    (world.callFinish taskEnd ambient).Keeps start record := by
  obtain ⟨hopen, hcommitted⟩ : world.Holds (.ended taskEnd) := hstage ▸ h.stage
  obtain ⟨event, reply, db, hstep, hreply, hcall, heq⟩ := world.callFinish_eq taskEnd ambient
  have htrace : Trace start (world.called .own event db).events db := h.trace_called hstep
  have hown : ∀ other run, (Party.own, other) ∈ (world.called .own event db).calls →
      other.reply = .ok (.finished run) → other = event := fun other run hother hfinished =>
    ((mem_called.mp hother).resolve_left fun hmem => hcommitted ⟨other, run, hmem, hfinished⟩).2
  rw [heq]
  refine ⟨h.identity, htrace, ?_, fun other run hother hfinished => ?_, ?_⟩
  · simp [RunExecution.heal, RunHistory.heal, RunHistory.extend, h.delta]
  · obtain rfl := hown other run hother hfinished
    rw [← h.identity]
    exact hstep.finishes hcall hfinished
  · cases reply with
    | ok run =>
      obtain ⟨returned, hreturned, hid⟩ := (hstep.finishes hcall hreply).ended?
      obtain rfl : run = returned := by
        simpa [StoreEvent.ended?, Call.ended?, hcall, hreply, Except.map] using hreturned
      have hended := hstep.endedWith (Trace.valid htrace hv) hreturned
      rw [hid] at hended
      exact ⟨hopen, hended⟩
    | error error =>
      have hnot : ¬ (world.called .own event db).Committed := by
        rintro ⟨other, run, hother, hfinished⟩
        obtain rfl := hown other run hother hfinished
        cases hreply.symm.trans hfinished
      rcases stageAfterFinish_error error with hnext | hnext
      · rw [hnext]
        exact ⟨hopen, hnot⟩
      · rw [hnext]
        exact ⟨hopen, hnot⟩

/-- **The reconciling read**: the record of another writer, or a fault. -/
theorem Keeps.read (h : world.Keeps start record) (hv : start.Valid)
    (hstage : world.stage = .reconciling) (ambient : Ambient) :
    (world.callRead ambient).Keeps start record := by
  obtain ⟨hopen, hcommitted⟩ : world.Holds .reconciling := hstage ▸ h.stage
  obtain ⟨event, reply, db, hstep, hreply, hcall, heq⟩ := world.callRead_eq ambient
  have htrace : Trace start (world.called .own event db).events db := h.trace_called hstep
  have hnot : ¬ (world.called .own event db).Committed := by
    rintro ⟨other, run, hother, hfinished⟩
    rcases mem_called.mp hother with hmem | ⟨-, rfl⟩
    · exact hcommitted ⟨other, run, hmem, hfinished⟩
    · cases reply <;> cases hreply.symm.trans hfinished
  rw [heq]
  refine ⟨h.identity, htrace, h.delta, fun other run hother hfinished =>
    absurd ⟨other, run, hother, hfinished⟩ hnot, ?_⟩
  match reply with
  | .error error => exact ⟨hopen, hnot⟩
  | .ok (.active run) => exact ⟨hopen, hnot⟩
  | .ok (.terminal run) =>
    have hrun : (Call.getRun world.execution.record.sessionId world.execution.record.id).run
        event.ambient world.db = (.ok (.run (.terminal run)), db) := by
      rw [← hcall]
      exact hstep.trans (congrArg (·, db) hreply)
    obtain ⟨row, found, hrow, hfound, heq⟩ := getRun_eq_ok hrun
    obtain rfl : RunRecord.terminal run = found := by simpa using heq
    obtain ⟨hmem, -, hid⟩ := world.db.run?_eq_some hrow
    have hended := (h.trace.valid hv).endedWith_of_read hmem hfound
    rw [hid] at hended
    exact ⟨hopen, hended.evolves hstep.change.evolves⟩

/-- **The end**: the result is published, and its event closes the log. -/
theorem Keeps.conclude (h : world.Keeps start record) {result : RunResult}
    (hstage : world.stage = .concluding result) :
    { world with execution := world.execution.conclude result, stage := .finalized }.Keeps
      start record := by
  obtain ⟨⟨hopen, hlog⟩, hsupports⟩ : world.Holds (.concluding result) := hstage ▸ h.stage
  have hhistory : (world.execution.conclude result).history = world.execution.history := by
    cases result <;> exact RunHistory.extend_nil _
  refine ⟨h.identity, h.trace, hhistory ▸ h.delta, hhistory ▸ h.own, result, ?_, ?_⟩
  · exact ⟨rfl, world.execution.events, rfl, hlog⟩
  · cases result <;> exact hsupports

/-- **Every step keeps the invariant.** -/
theorem Keeps.act (h : world.Keeps start record) (hv : start.Valid) (act : RunAct) :
    (world.act act).Keeps start record := by
  cases act with
  | other call ambient =>
    obtain ⟨event, db, hstep, heq⟩ := world.callOther_eq call ambient
    exact (congrArg (Keeps start record) heq).mpr (h.other hstep)
  | emit event =>
    rw [RunWorld.act]
    split
    next hemit => exact h.emit hemit.1 hemit.2
    next => exact h
  | endTask taskEnd =>
    rw [RunWorld.act]
    split
    next hstage => exact h.endTask hstage taskEnd
    next => exact h
  | finish ambient =>
    rw [RunWorld.act]
    split
    next taskEnd hstage => exact h.finish hv hstage ambient
    next => exact h
  | read ambient =>
    rw [RunWorld.act]
    split
    next hstage => exact h.read hv hstage ambient
    next => exact h
  | conclude =>
    rw [RunWorld.act]
    split
    next result hstage => exact h.conclude hstage
    next => exact h

theorem Keeps.play (h : world.Keeps start record) (hv : start.Valid) (schedule : List RunAct) :
    (world.play schedule).Keeps start record := by
  induction schedule generalizing world with
  | nil => exact h
  | cons act schedule ih => exact ih (h.act hv act)

end RunWorld

/-! ## Admission -/

theorem RunWorld.keeps_admitted (started : StartedRun) (db : Database) :
    (RunWorld.admitted started db).Keeps db started.run where
  identity := rfl
  trace := .nil db
  delta := by
    simp [RunWorld.admitted, RunExecution.init, RunHistory.start, delta_observe_ne_nil]
  own := fun event run hown => by simp [RunWorld.admitted] at hown
  stage := ⟨⟨rfl, by simp [RunWorld.admitted, RunExecution.init, AgentEvent.isTerminal]⟩,
    fun ⟨event, run, hown, _⟩ => by simp [RunWorld.admitted] at hown⟩

/-! ## Agreement -/

/-- **The three copies of a run's end agree**, and its delta is where they say. -/
structure RunWorld.Agrees (sessionId runId : String) (world : RunWorld) : Prop where
  /-- An outcome is the durable one, and closes the log. -/
  ended : ∀ outcome, world.execution.wait = some (.ended outcome) →
    world.db.EndedWith runId outcome.plain ∧
      ∃ inner, world.execution.events = inner ++ [.runEnd outcome]
  /-- It is what `get_run` replies with, if it replies. -/
  read : ∀ outcome, world.execution.wait = some (.ended outcome) → ∀ ambient record,
    ((Call.getRun sessionId runId).run ambient world.db).1 = .ok (.run record) →
      ∃ run, record = .terminal run ∧ run.outcome = outcome.plain
  /-- As soon as the log says so. -/
  logged : ∀ outcome, .runEnd outcome ∈ world.execution.events →
    world.execution.wait = some (.ended outcome)
  /-- If the run's own `finish_run` committed, its delta is in the history. -/
  committed : world.Committed →
    HoldsOnce (world.db.deltas sessionId) runId world.execution.history.delta
  /-- If not, nothing of the run is, unless another process finished this very run: then what that
  one committed is. -/
  uncommitted : ¬ world.Committed → HoldsNone (world.db.deltas sessionId) runId ∨
    ∃ event delta, (.other, event) ∈ world.calls ∧ event.Finishes sessionId runId delta ∧
      HoldsOnce (world.db.deltas sessionId) runId delta
  /-- So while nobody else finishes the run, its delta is in the history only if it committed. -/
  committed_iff :
    (∀ event, (.other, event) ∈ world.calls → ∀ delta, ¬ event.Finishes sessionId runId delta) →
      (world.Committed ↔
        HoldsOnce (world.db.deltas sessionId) runId world.execution.history.delta)
  /-- In particular, a run that another process aborted contributes nothing. -/
  aborted : ∀ event, (.other, event) ∈ world.calls → event.Aborts runId →
    ¬ world.Committed ∧ HoldsNone (world.db.deltas sessionId) runId
  /-- A fault closes the log as well, and nothing was committed. -/
  faulted : ∀ exceptionType message,
    world.execution.wait = some (.faulted exceptionType message) →
      ¬ world.Committed ∧
        ∃ inner, world.execution.events = inner ++ [.runFault exceptionType message]

namespace RunWorld

variable {start : Database} {record : ActiveRun} {world : RunWorld}

theorem Keeps.isOpen (h : world.Keeps start record) (hstage : world.stage ≠ .finalized) :
    world.Open := by
  have hholds := h.stage
  cases hnow : world.stage with
  | finalized => exact absurd hnow hstage
  | executing | ended | reconciling | concluding =>
    rw [hnow] at hholds
    exact hholds.1

/-- Once there is a result, the run is over. -/
theorem Keeps.stage_eq_finalized (h : world.Keeps start record) {result : RunResult}
    (hwait : world.execution.wait = some result) : world.stage = .finalized := by
  by_contra hstage
  simp [RunExecution.wait, (h.isOpen hstage).1] at hwait

theorem Keeps.closed (h : world.Keeps start record) {result : RunResult}
    (hwait : world.execution.wait = some result) :
    world.Closed result ∧ world.Supports result := by
  obtain ⟨result', hclosed, hsupports⟩ : world.Holds .finalized :=
    h.stage_eq_finalized hwait ▸ h.stage
  obtain rfl : result' = result := Option.some.inj (hclosed.1.symm.trans hwait)
  exact ⟨hclosed, hsupports⟩

theorem Keeps.logged (h : world.Keeps start record) {outcome : RunOutcome}
    (hlogged : .runEnd outcome ∈ world.execution.events) :
    world.execution.wait = some (.ended outcome) := by
  by_cases hstage : world.stage = .finalized
  · obtain ⟨result, ⟨hwait, inner, hevents, hinner⟩, -⟩ : world.Holds .finalized := hstage ▸ h.stage
    rw [hevents, List.mem_append, List.mem_singleton] at hlogged
    rcases hlogged with hlogged | hlogged
    · cases hinner _ hlogged
    · cases result with
      | ended outcome' =>
        obtain rfl := AgentEvent.runEnd.inj hlogged
        exact hwait
      | faulted => cases hlogged
  · cases (h.isOpen hstage).2 _ hlogged

/-- **Where the delta of a run is**, for any run that keeps the invariant. -/
theorem Keeps.agrees (h : world.Keeps start record) {prior : List StoreEvent}
    (hprior : Trace {} prior start) (hactive : start.Active record.id)
    (hsession : start.HasSession record.sessionId) : world.Agrees record.sessionId record.id := by
  have hv := hprior.valid_of_empty
  have honce : endings record.id world.events ≤ 1 := by
    have hle := (Trace.endings_eq (hprior.append h.trace) record.id).1
    rw [endings, List.countP_append] at hle
    exact le_trans (Nat.le_add_left _ _) hle
  have hdeltas := Trace.deltas_eq h.trace hv hsession
  have hstart := hv.holdsNone_of_active hactive record.sessionId
  have hmem : ∀ {party : Party} {event : StoreEvent}, (party, event) ∈ world.calls →
      event ∈ world.events := fun hcall => List.mem_map_of_mem hcall
  have hnone : (∀ event ∈ world.events, ∀ delta,
      ¬ event.Finishes record.sessionId record.id delta) →
      HoldsNone (world.db.deltas record.sessionId) record.id := by
    intro hothers entry hentry
    rw [hdeltas, List.mem_append] at hentry
    exact hentry.elim (hstart entry) (Trace.holdsNone h.trace hothers entry)
  have hcommitted : world.Committed →
      HoldsOnce (world.db.deltas record.sessionId) record.id world.execution.history.delta := by
    rintro ⟨event, run, hown, hreply⟩
    rw [hdeltas]
    exact hstart.append_holdsOnce
      (Trace.holdsOnce h.trace honce (hmem hown) (h.own event run hown hreply))
  have huncommitted : ¬ world.Committed → HoldsNone (world.db.deltas record.sessionId) record.id ∨
      ∃ event delta, (.other, event) ∈ world.calls ∧
        event.Finishes record.sessionId record.id delta ∧
        HoldsOnce (world.db.deltas record.sessionId) record.id delta := by
    intro hnot
    by_cases hother : ∃ event delta, (.other, event) ∈ world.calls ∧
        event.Finishes record.sessionId record.id delta
    · obtain ⟨event, delta, hcall, hfinishes⟩ := hother
      refine .inr ⟨event, delta, hcall, hfinishes, ?_⟩
      rw [hdeltas]
      exact hstart.append_holdsOnce (Trace.holdsOnce h.trace honce (hmem hcall) hfinishes)
    · refine .inl (hnone fun event hevent delta hfinishes => ?_)
      obtain ⟨⟨party, event⟩, hcall, rfl⟩ := List.mem_map.mp hevent
      cases party with
      | own =>
        obtain ⟨outcome, run, -, hreply, -⟩ := hfinishes
        exact hnot ⟨event, run, hcall, hreply⟩
      | other => exact hother ⟨event, delta, hcall, hfinishes⟩
  have hended : ∀ outcome, world.execution.wait = some (.ended outcome) →
      world.db.EndedWith record.id outcome.plain ∧
        ∃ inner, world.execution.events = inner ++ [.runEnd outcome] := by
    intro outcome hwait
    obtain ⟨⟨-, inner, hevents, -⟩, hsupports⟩ := h.closed hwait
    exact ⟨h.identity ▸ hsupports, inner, hevents⟩
  refine ⟨hended, fun outcome hwait ambient found hfound => ?read, fun outcome => h.logged,
    hcommitted, huncommitted, ?only, ?aborted, fun exceptionType message hwait => ?faulted⟩
  case read =>
    obtain ⟨run, hrun, houtcome⟩ := (hended outcome hwait).1.read (h.trace.valid hv) hfound
    exact ⟨run, hrun, houtcome.trans outcome.plain_plain⟩
  case only =>
    refine fun hothers => ⟨hcommitted, fun hholds => ?_⟩
    by_contra hnot
    rcases huncommitted hnot with hnone | ⟨event, delta, hcall, hfinishes, -⟩
    · exact hholds.not_holdsNone h.delta hnone
    · exact hothers event hcall delta hfinishes
  case aborted =>
    refine fun event hcall haborts => ⟨?_, hnone fun other hother delta =>
      haborts.not_finishes honce (hmem hcall) hother⟩
    rintro ⟨other, run, hown, hreply⟩
    exact haborts.not_finishes honce (hmem hcall) (hmem hown) (h.own other run hown hreply)
  case faulted =>
    obtain ⟨⟨-, inner, hevents, -⟩, hsupports⟩ := h.closed hwait
    exact ⟨hsupports, inner, hevents⟩

/-- A result, once published, stays. -/
theorem Keeps.wait_act (h : world.Keeps start record) {result : RunResult}
    (hwait : world.execution.wait = some result) (act : RunAct) :
    (world.act act).execution.wait = some result := by
  have hstage := h.stage_eq_finalized hwait
  cases act <;> simpa [RunWorld.act, hstage, callOther, called] using hwait

theorem Keeps.wait_play (h : world.Keeps start record) (hv : start.Valid) {result : RunResult}
    (hwait : world.execution.wait = some result) (schedule : List RunAct) :
    (world.play schedule).execution.wait = some result := by
  induction schedule generalizing world with
  | nil => exact hwait
  | cons act schedule ih => exact ih (h.act hv act) (h.wait_act hwait act)

end RunWorld

/-- What the task of an admitted run does is a schedule: what it emits, and then how it ends. -/
theorem PromptRun.task_eq_play (run : PromptRun) (db : Database) :
    ∃ schedule : List RunAct,
      (RunWorld.admitted ⟨run.record, run.committedHistory⟩ db).play schedule
        = { RunWorld.admitted ⟨run.record, run.committedHistory⟩ db with
            execution := run.executed.2.execution
            stage := (run.taskEnd?.map .ended).getD .executing } := by
  obtain ⟨inner, hinner, heq⟩ := executePrompt_emits run.dependencies run.result run.script
    { execution := .init run.record run.committedHistory }
  have hemits : (RunWorld.admitted ⟨run.record, run.committedHistory⟩ db).play (inner.map .emit)
      = { RunWorld.admitted ⟨run.record, run.committedHistory⟩ db with
          execution := run.executed.2.execution } :=
    (RunWorld.play_emits rfl hinner).trans (by rw [PromptRun.executed, heq]; rfl)
  cases hend : run.taskEnd? with
  | none => exact ⟨_, hemits⟩
  | some taskEnd =>
    refine ⟨inner.map .emit ++ [.endTask taskEnd], ?_⟩
    rw [RunWorld.play_append, hemits]
    simp [RunWorld.play, RunWorld.act, RunWorld.admitted]

/-- **Durable agreement of a run.**  A run was admitted, after any calls; then it and other
processes take steps in any order, every call of theirs failing or not, and the task ending in any
way.  In every state this leads to, the result `wait` returns, the event log and the database agree,
and what `wait` returned it returns ever after. -/
theorem durable_agreement {calls : List (Call × Ambient)} {admission : Ambient}
    {sessionId runId prompt model provider : String} {started : StartedRun} {db : Database}
    (h : (Call.startRun sessionId runId prompt model provider).run admission (play {} calls).2
      = (.ok (.started started), db)) (schedule later : List RunAct) :
    ((RunWorld.admitted started db).play schedule).Agrees sessionId runId ∧
      ∀ result, ((RunWorld.admitted started db).play schedule).execution.wait = some result →
        ((RunWorld.admitted started db).play (schedule ++ later)).execution.wait = some result := by
  obtain ⟨hsession, -, -, items, -, hstarted, hdb⟩ := startRun_eq_ok h
  have hstarted := Reply.started.inj hstarted
  have hid : started.run.id = runId := by rw [hstarted]; rfl
  have hsessionId : started.run.sessionId = sessionId := by rw [hstarted]; rfl
  have hprior : Trace {} ((play {} calls).1 ++ [⟨_, admission, _⟩]) db :=
    (trace_play calls {}).snoc h
  have hactive : db.Active started.run.id := by
    rw [hdb, hid]
    exact ⟨_, List.mem_append_right _ List.mem_cons_self, rfl, rfl⟩
  have hv := hprior.valid_of_empty
  have hkeeps := (RunWorld.keeps_admitted started db).play hv schedule
  constructor
  · have hagrees := hkeeps.agrees hprior hactive (hsessionId ▸ hdb ▸ hsession)
    rwa [hid, hsessionId] at hagrees
  · intro result hwait
    rw [RunWorld.play_append]
    exact hkeeps.wait_play hv hwait later

end Parser

/-- A run whose session another process aborts and runs a successor in, while its own task goes on
to complete. -/
def fencedRun : StartedRun where
  run := ⟨"r", "s", "prompt", 2, "model", "provider"⟩
  committedHistory := []

def fencedSchedule : List RunAct :=
  [.emit .agentStart, .other (.abortActiveRun "s") ⟨3, fun _ => "h", []⟩,
    .other (.startRun "s" "q" "again" "model" "provider") ⟨4, fun _ => "h", []⟩,
    .endTask (.returned (.completed (.text "done"))), .finish ⟨5, fun _ => "h", []⟩,
    .other (.finishRun "s" "q" (.completed (.text "done")) [.user { content := "again" }])
      ⟨6, fun _ => "g", []⟩,
    .read ⟨7, fun _ => "h", []⟩, .conclude]

theorem durable_agreement_fenced :
    let admission := (Call.startRun "s" "r" "prompt" "model" "provider").run ⟨2, fun _ => "h", []⟩
      (play {} [(.createSession "s", ⟨1, fun _ => "h", []⟩)]).2
    let world := (RunWorld.admitted fencedRun admission.2).play fencedSchedule
    world.execution.wait = some (.ended (.aborted .cancelled)) ∧
      world.db.historyItems.length = 1 ∧ world.Agrees "s" "r" :=
  ⟨by decide +kernel, by decide +kernel,
    (durable_agreement (Prod.ext (by decide +kernel) rfl) fencedSchedule []).1⟩

end Tile
