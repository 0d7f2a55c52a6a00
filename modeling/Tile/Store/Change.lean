import Tile.Store.Steps

/-!
# Store/Change — every way a call can end

`Call.run_change` sums up the calls in one inductive relation: which rows were there, what the call
replied, which database it left.  Invariants of the database are proved by cases on it.
-/

namespace Tile

/-! ## Stored rows -/

/-- A run row as the store writes it: an active row has no terminal data; a terminal one has the
JSON of an outcome that implies its status, and an end that is not before its start. -/
def RunRow.Written (row : RunRow) : Prop :=
  (row.status = .active ∧ row.endedAt = none ∧ row.outcomeJson = none) ∨
    ∃ endedAt outcomeJson outcome, row.endedAt = some endedAt ∧
      row.outcomeJson = some outcomeJson ∧ dumpOutcome outcome = some outcomeJson ∧
      terminalStatusFor outcome = row.status ∧ row.startedAt ≤ endedAt

/-- The row that stores an envelope. -/
def HistoryItem.toRow (item : HistoryItem) : HistoryRow :=
  historyValues item.id item.item item.runId item.sessionId item.position item.createdAt

/-- A row determines the envelope it stores, whether or not its text can be read back. -/
theorem HistoryItem.toRow_injective : Function.Injective HistoryItem.toRow := by
  rintro ⟨⟩ ⟨⟩ h
  simp only [toRow, historyValues, HistoryRow.mk.injEq] at h
  obtain ⟨rfl, rfl, rfl, rfl, -, hpayload, rfl⟩ := h
  have hitem := congrArg itemOfJson? hpayload
  rw [itemOfJson_itemToJson, itemOfJson_itemToJson, Option.some.injEq] at hitem
  rw [hitem]

/-- The active run a row stands for. -/
def RunRow.activeRun (row : RunRow) : ActiveRun := { toRunBase := row.base }

@[simp] theorem RunRow.activeRun_id (row : RunRow) : row.activeRun.id = row.id := rfl

theorem ActiveRun.eq_activeRun {run : ActiveRun} {row : RunRow} (h : run.toRunBase = row.base) :
    run = row.activeRun := by
  rw [RunRow.activeRun, ← h]

theorem activeRunFromRow_eq_ok {row : RunRow} {run : ActiveRun}
    (h : activeRunFromRow row = .ok run) : row.status = .active ∧ run.toRunBase = row.base := by
  rw [activeRunFromRow] at h
  split at h
  · simp at h
  · next hactive =>
    split at h
    · simp at h
    · simp only [Except.ok.injEq] at h
      exact ⟨not_not.mp hactive, by rw [← h]⟩

theorem map_of_error {α β : Type} {f : α → β} {m : Sql α} {c : Connection} {e : PyError}
    (h : (m c).1 = .error e) : ((f <$> m) c).1 = .error e := by
  rcases hm : m c with ⟨r, d⟩
  obtain rfl : r = .error e := by simpa [hm] using h
  exact congrArg Prod.fst (Effect.bind_of_error hm _)

variable [JsonParser]

/-- The parser reads what the row stores of an outcome. -/
def RunRow.Legible (row : RunRow) : Prop :=
  ∀ payload, row.outcomeJson = some payload → payload.Parses

/-- **An envelope is read back exactly when its item is legible.** -/
theorem historyFromRow_toRow {item item' : HistoryItem} :
    historyFromRow item.toRow = .ok item' ↔ item.item.Legible ∧ item' = item := by
  have hpayload : item.toRow.payloadJson = itemToJson item.item := rfl
  rw [historyFromRow, hpayload]
  cases hload : loadConversationItem (itemToJson item.item) with
  | none =>
    refine iff_of_false (by simp) fun h => ?_
    rw [loadConversationItem_itemToJson.mpr ⟨h.1, rfl⟩] at hload
    cases hload
  | some stored =>
    obtain ⟨hlegible, rfl⟩ := loadConversationItem_itemToJson.mp hload
    simp only [HistoryItem.toRow, historyValues, ne_eq, not_true_eq_false, if_false, hlegible,
      Except.ok.injEq, true_and]
    exact eq_comm

theorem runFromRow_of_active {row : RunRow} (h : row.Written) (hactive : row.status = .active) :
    runFromRow row = .ok (.active { toRunBase := row.base }) := by
  rcases h with ⟨-, hended, houtcome⟩ | ⟨_, _, outcome, _, _, _, hstatus, _⟩
  · simp [runFromRow, activeRunFromRow, hactive, hended, houtcome, Except.map]
  · exact absurd (hstatus.trans hactive) (terminalStatusFor_ne_active outcome)

theorem runFromRow_of_terminal {row : RunRow} (h : row.Written) (hlegible : row.Legible)
    (hended : row.status ≠ .active) :
    ∃ run : TerminalRun, runFromRow row = .ok (.terminal run) ∧ run.toRunBase = row.base ∧
      row.endedAt = some run.endedAt ∧ row.outcomeJson.bind loadOutcome = some run.outcome := by
  rcases h with ⟨hactive, -⟩ | ⟨endedAt, outcomeJson, outcome, hat, hjson, hdump, hstatus, hle⟩
  · exact absurd hactive hended
  · have hload := (loadOutcome_of_dumpOutcome hdump).mpr ⟨hlegible _ hjson, rfl⟩
    have hplain := (terminalStatusFor_plain outcome).trans hstatus
    refine ⟨{ toRunBase := row.base, endedAt, outcome := outcome.plain, ordered := hle }, ?_, rfl,
      hat, ?_⟩
    · have hrow : terminalRunFromRow row endedAt outcomeJson
          = .ok { toRunBase := row.base, endedAt, outcome := outcome.plain, ordered := hle } := by
        simp [terminalRunFromRow, hload, hle, hplain]
      simp [runFromRow, hended, hat, hjson, hrow, Except.map]
    · rw [hjson]
      exact hload

/-- **A terminal row whose text the parser refuses is never read back.** -/
theorem runFromRow_of_not_legible {row : RunRow} (h : row.Written) (hended : row.status ≠ .active)
    (hrefused : ¬ row.Legible) : runFromRow row = .error (.backend (.value "outcome")) := by
  rcases h with ⟨hactive, -⟩ | ⟨endedAt, outcomeJson, outcome, hat, hjson, hdump, -⟩
  · exact absurd hactive hended
  · have hload : loadOutcome outcomeJson = none := by
      cases hloaded : loadOutcome outcomeJson with
      | none => rfl
      | some stored =>
        refine absurd (fun payload hpayload => ?_) hrefused
        obtain rfl := Option.some.inj (hjson.symm.trans hpayload)
        exact ((loadOutcome_of_dumpOutcome hdump).mp hloaded).1
    simp [runFromRow, terminalRunFromRow, hended, hat, hjson, hload, Except.map]

theorem runFromRow_eq_active {row : RunRow} {run : ActiveRun}
    (h : runFromRow row = .ok (.active run)) : row.status = .active ∧ run.toRunBase = row.base := by
  rw [runFromRow] at h
  split at h
  · cases hrow : activeRunFromRow row with
    | error e => simp [hrow, Except.map] at h
    | ok run' =>
      obtain rfl : run' = run := by simpa [hrow, Except.map] using h
      exact activeRunFromRow_eq_ok hrow
  · split at h
    · next endedAt outcomeJson _ _ =>
      cases hrow : terminalRunFromRow row endedAt outcomeJson <;> simp [hrow, Except.map] at h
    · simp at h

/-! ## What a call can do -/

/-- Every way a call can end: what held before, what it replies, which database it leaves. -/
inductive Change (ambient : Ambient) (db : Database) :
    Call → Except PyError Reply → Database → Prop where
  | failed {call : Call} {error : PyError} : Change ambient db call (.error error) db
  | read {call : Call} {reply : Reply} : call.Reads → Change ambient db call (.ok reply) db
  | created {sessionId : String} : ¬ db.HasSession sessionId →
      Change ambient db (.createSession sessionId)
        (.ok (.session (newSessionRecord ambient.now sessionId)))
        { db with sessions := db.sessions ++ [⟨sessionId, ambient.now, ambient.now⟩] }
  | started {sessionId runId prompt model provider : String} {items : List HistoryItem} :
      db.HasSession sessionId → ¬ db.HasActiveRun sessionId → ¬ db.HasRun runId →
      db.history sessionId = .ok items →
      Change ambient db (.startRun sessionId runId prompt model provider)
        (.ok (.started
          { run := newActiveRunRecord ambient.now runId sessionId prompt model provider
            committedHistory := items }))
        { db with
          runs := db.runs
            ++ [runValues (newActiveRunRecord ambient.now runId sessionId prompt model provider)] }
  | finished {row : RunRow} {outcome : RunOutcome} {delta : List ConversationItem}
      {outcomeJson : Json} {sessionRow : SessionRow} :
      row ∈ db.runs → row.status = .active → dumpOutcome outcome = some outcomeJson →
      db.session? row.sessionId = some sessionRow →
      Change ambient db (.finishRun row.sessionId row.id outcome delta)
        (.ok (.finished (terminalRunRecord ambient.now row.activeRun outcome)))
        (finalizedDatabase ambient.uuid (terminalRunRecord ambient.now row.activeRun outcome)
          outcomeJson delta sessionRow.updatedAt db)
  | idle {sessionId : String} : ¬ db.HasActiveRun sessionId →
      Change ambient db (.abortActiveRun sessionId) (.ok (.aborted none)) db
  | aborted {row : RunRow} {outcomeJson : Json} {sessionRow : SessionRow} :
      row ∈ db.runs → row.status = .active →
      dumpOutcome (.aborted .cancelled) = some outcomeJson →
      db.session? row.sessionId = some sessionRow →
      Change ambient db (.abortActiveRun row.sessionId)
        (.ok (.aborted (some (terminalRunRecord ambient.now row.activeRun (.aborted .cancelled)))))
        (finalizedDatabase ambient.uuid
          (terminalRunRecord ambient.now row.activeRun (.aborted .cancelled))
          outcomeJson [] sessionRow.updatedAt db)
  | forked {source target : String} {items : List HistoryItem} :
      db.HasSession source → ¬ db.HasSession target → db.history source = .ok items →
      Change ambient db (.forkSession source target)
        (.ok (.session (newSessionRecord ambient.now target)))
        { db with
          sessions := db.sessions ++ [⟨target, ambient.now, ambient.now⟩]
          historyItems := db.historyItems ++ copiedRows ambient.uuid items target }

theorem Change.of_reads {call : Call} {ambient : Ambient} {db db' : Database} {reply : Reply}
    (hreads : call.Reads) (h : call.run ambient db = (.ok reply, db')) :
    Change ambient db call (.ok reply) db' := by
  obtain rfl : db' = db := by simpa [h] using Call.run_reads hreads ambient db
  exact .read hreads

/-- **Every call is one of the changes.** -/
theorem Call.run_change (call : Call) (ambient : Ambient) (db : Database) :
    Change ambient db call (call.run ambient db).1 (call.run ambient db).2 := by
  rcases hrun : call.run ambient db with ⟨e | reply, db'⟩
  · obtain rfl := Call.run_error hrun
    exact .failed
  cases call with
  | createSession sessionId =>
    obtain ⟨hnew, rfl, rfl⟩ := createSession_eq_ok hrun
    exact .created hnew
  | startRun sessionId runId prompt model provider =>
    obtain ⟨hsession, hactive, hrow, items, hitems, rfl, rfl⟩ := startRun_eq_ok hrun
    exact .started hsession hactive hrow hitems
  | finishRun sessionId runId outcome delta =>
    obtain ⟨row, run, outcomeJson, sessionRow, hrow, hrecord, hdump, hsession, rfl, rfl⟩ :=
      finishRun_eq_ok hrun
    obtain ⟨hmem, rfl, rfl⟩ := db.run?_eq_some hrow
    obtain ⟨hactive, hbase⟩ := runFromRow_eq_active hrecord
    obtain rfl := ActiveRun.eq_activeRun hbase
    exact .finished hmem hactive hdump hsession
  | abortActiveRun sessionId =>
    obtain ⟨-, ⟨hactive, rfl, rfl⟩ | ⟨row, run, outcomeJson, sessionRow, hrow, hrecord, hdump,
      hsession, rfl, rfl⟩⟩ := abortActiveRun_eq_ok hrun
    · exact .idle hactive
    · obtain ⟨hmem, rfl, hactive⟩ := db.activeRun?_eq_some hrow
      obtain rfl := ActiveRun.eq_activeRun (activeRunFromRow_eq_ok hrecord).2
      exact .aborted hmem hactive hdump hsession
  | forkSession source target =>
    obtain ⟨hsource, htarget, items, hitems, rfl, rfl⟩ := forkSession_eq_ok hrun
    exact .forked hsource htarget hitems
  | getSession _ | listSessions | getHistory _ | getRun _ _ | listRuns _ =>
    exact .of_reads trivial hrun

/-! ## What a call raises -/

/-- The call raises `e` over an unchanged database, unless the backend fails first. -/
structure Call.Raises (call : Call) (ambient : Ambient) (db : Database) (e : PyError) : Prop where
  healthy : call.run ambient.healthy db = (.error e, db)
  faulty : call.run ambient db = (.error e, db) ∨
    ∃ fault, call.run ambient db = (.error fault, db) ∧ fault.IsFault

theorem Call.raises_of_method {call : Call} {ambient : Ambient} {db : Database} {e : PyError}
    (h : (call.method ambient (.idle db)).1 = .error e) : call.Raises ambient db e := by
  have hrun : call.run ambient.healthy db = (.error e, db) := by
    rw [Call.run_healthy, h, (call.allOrNothing ambient db).1 e h]
  exact ⟨hrun, (call.run_eq_healthy_or_fault ambient db).imp_left fun heq => heq.trans hrun⟩

theorem getRunRecord_of_none {sessionId runId : String} (c : Connection) (hc : c.faults = [])
    (h : c.view.run? sessionId runId = none) :
    getRunRecord sessionId runId c = (.error (.store (.runNotFound runId sessionId)), c) := by
  rw [getRunRecord, Effect.bind_of_ok (query_apply _ hc), h]
  rfl

theorem getRunRecord_of_some {sessionId runId : String} {row : RunRow} (c : Connection)
    (hc : c.faults = []) (h : c.view.run? sessionId runId = some row) :
    getRunRecord sessionId runId c = (runFromRow row, c) := by
  rw [getRunRecord, Effect.bind_of_ok (query_apply _ hc), h]
  rfl

theorem finishRun_raises_of_none {sessionId runId : String} {db : Database}
    (h : db.run? sessionId runId = none) (outcome : RunOutcome) (delta : List ConversationItem)
    (ambient : Ambient) :
    (Call.finishRun sessionId runId outcome delta).Raises ambient db
      (.store (.runNotFound runId sessionId)) :=
  Call.raises_of_method <| map_of_error <| translateStoreErrors_of_store <|
    immediateTransaction_of_error <|
    Effect.bind_of_error (getRunRecord_of_none (.within db db) rfl h) _

theorem finishRun_raises_of_terminal {sessionId runId : String} {db : Database} {row : RunRow}
    {run : TerminalRun} (h : db.run? sessionId runId = some row)
    (hrun : runFromRow row = .ok (.terminal run)) (outcome : RunOutcome)
    (delta : List ConversationItem) (ambient : Ambient) :
    (Call.finishRun sessionId runId outcome delta).Raises ambient db
      (.store (.runAlreadyEnded runId)) := by
  refine Call.raises_of_method <| map_of_error <| translateStoreErrors_of_store <|
    immediateTransaction_of_error (c := .within db db) ?_
  rw [Effect.bind_of_ok ((getRunRecord_of_some (.within db db) rfl h).trans (by rw [hrun]))]
  rfl

/-- A row that is not read back makes the call raise a persistence error. -/
theorem finishRun_raises_of_unreadable {sessionId runId : String} {db : Database} {row : RunRow}
    {cause : BackendError} (h : db.run? sessionId runId = some row)
    (hrow : runFromRow row = .error (.backend cause)) (outcome : RunOutcome)
    (delta : List ConversationItem) (ambient : Ambient) :
    (Call.finishRun sessionId runId outcome delta).Raises ambient db
      (.store (.persistence .finishRun cause)) := by
  refine Call.raises_of_method <| map_of_error <| translateStoreErrors_of_backend <|
    immediateTransaction_of_error (c := .within db db) ?_
  exact Effect.bind_of_error ((getRunRecord_of_some (.within db db) rfl h).trans (by rw [hrow])) _

theorem getRun_raises_of_none {sessionId runId : String} {db : Database}
    (h : db.run? sessionId runId = none) (ambient : Ambient) :
    (Call.getRun sessionId runId).Raises ambient db (.store (.runNotFound runId sessionId)) :=
  Call.raises_of_method <| map_of_error <| translateStoreErrors_of_store <|
    congrArg Prod.fst (getRunRecord_of_none (.idle db) rfl h)

end Tile
