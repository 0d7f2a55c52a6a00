import Tile.Store.Faults

/-!
# Store/Steps — what each call can do

One lemma per call that ends with a value: what must have held, what it replies, which database it
leaves.  A call that raises leaves the database alone (`Call.run_error`), so these lemmas are all an
invariant has to look at.
-/

namespace Tile

variable {α : Type}

/-! ## Running inside and outside a transaction -/

/-- A read on a healthy backend gives what is visible and changes nothing. -/
theorem query_apply (read : Database → α) {c : Connection} (h : c.faults = []) :
    query read c = (.ok (read c.view), c) := by
  obtain ⟨committed, transaction, faults⟩ := c
  obtain rfl : faults = [] := h
  cases transaction <;> rfl

/-- A statement that succeeds moves the working copy on. -/
theorem execute_within_ok {act : Database → Except SqlError (α × Database)} {a : α}
    {db working working' : Database} (h : act working = .ok (a, working')) :
    execute act (.within db working) = (.ok a, .within db working') := by
  have hnext : nextStatement (.within db working) = (.ok (), .within db working) := rfl
  rw [execute, Effect.bind_of_ok hnext]
  simp only [statement, Connection.view, Option.getD_some, h, Connection.write]

/-- A statement that the database refuses leaves the working copy as it was. -/
theorem execute_within_error {act : Database → Except SqlError (α × Database)} {e : SqlError}
    {db working : Database} (h : act working = .error e) :
    execute act (.within db working) = (.error (.backend (.sqlite e)), .within db working) := by
  have hnext : nextStatement (.within db working) = (.ok (), .within db working) := rfl
  rw [execute, Effect.bind_of_ok hnext]
  simp only [statement, Connection.view, Option.getD_some, h]

/-- A statement that ended with a value. -/
theorem execute_within_eq_ok {act : Database → Except SqlError (α × Database)} {a : α}
    {db working : Database} {c : Connection} (h : execute act (.within db working) = (.ok a, c)) :
    ∃ working', act working = .ok (a, working') ∧ c = .within db working' := by
  rcases hact : act working with e | ⟨b, working'⟩
  · rw [execute_within_error hact] at h
    simp at h
  · rw [execute_within_ok hact] at h
    obtain ⟨h₁, h₂⟩ := Prod.mk.inj h
    obtain rfl : b = a := by simpa using h₁
    exact ⟨working', rfl, h₂.symm⟩

/-- A transaction that ended with a value published what its body worked out. -/
theorem immediateTransaction_eq_ok {body : Sql α} {db : Database} {a : α} {c : Connection}
    (h : immediateTransaction body (.idle db) = (.ok a, c)) :
    ∃ c', body (.within db db) = (.ok a, c') ∧ c.committed = c'.view := by
  have hbegin : beginImmediate (.idle db) = (.ok (), .within db db) := rfl
  rw [immediateTransaction, Effect.bind_of_ok hbegin] at h
  rcases hb : body (.within db db) with ⟨e | b, c'⟩
  · rw [Effect.catching_of_error (Effect.bind_of_error hb _), rollback_raise] at h
    simp at h
  · obtain ⟨c'', hc'', hcommit⟩ := nextStatement_cases c'
    rcases hcommit with hcommit | hcommit
    · have hc : commit c' = (.ok (), { c'' with committed := c''.view, transaction := none }) :=
        Effect.bind_of_ok hcommit _
      rw [Effect.catching_of_ok ((Effect.bind_of_ok hb _).trans (Effect.bind_of_ok hc _))] at h
      obtain ⟨h₁, rfl⟩ := Prod.mk.inj h
      obtain rfl : b = a := by simpa using h₁
      refine ⟨c', rfl, ?_⟩
      rw [← Connection.healthy_view c', ← hc'']
      rfl
    · have hc : commit c' = (.error .fault, c'') := Effect.bind_of_error hcommit _
      rw [Effect.catching_of_error ((Effect.bind_of_ok hb _).trans (Effect.bind_of_error hc _)),
        rollback_raise] at h
      simp at h

/-- A transaction whose body raised, raised the same. -/
theorem immediateTransaction_of_error {body : Sql α} {db : Database} {e : PyError} {c : Connection}
    (h : body (.within db db) = (.error e, c)) :
    (immediateTransaction body (.idle db)).1 = .error e := by
  have hbegin : beginImmediate (.idle db) = (.ok (), .within db db) := rfl
  rw [immediateTransaction, Effect.bind_of_ok hbegin,
    Effect.catching_of_error (Effect.bind_of_error h _), rollback_raise]

/-- A value passes the translation of errors unchanged. -/
theorem translateStoreErrors_eq_ok {operation : StoreOperation} {body : Sql α} {c c' : Connection}
    {a : α} (h : translateStoreErrors operation body c = (.ok a, c')) : body c = (.ok a, c') := by
  rcases hb : body c with ⟨e | b, d⟩
  · rw [translateStoreErrors, Effect.catching_of_error hb] at h
    cases e <;> simp at h
  · rwa [translateStoreErrors, Effect.catching_of_ok hb] at h

/-- An error of the store's own is not renamed. -/
theorem translateStoreErrors_of_store {operation : StoreOperation} {body : Sql α} {c : Connection}
    {e : StoreError} (h : (body c).1 = .error (.store e)) :
    (translateStoreErrors operation body c).1 = .error (.store e) := by
  rcases hb : body c with ⟨r, d⟩
  obtain rfl : r = .error (.store e) := by simpa [hb] using h
  rw [translateStoreErrors, Effect.catching_of_error hb]
  rfl

/-- An error of the backend becomes a persistence error of the operation. -/
theorem translateStoreErrors_of_backend {operation : StoreOperation} {body : Sql α} {c : Connection}
    {cause : BackendError} (h : (body c).1 = .error (.backend cause)) :
    (translateStoreErrors operation body c).1 = .error (.store (.persistence operation cause)) := by
  rcases hb : body c with ⟨r, d⟩
  obtain rfl : r = .error (.backend cause) := by simpa [hb] using h
  rw [translateStoreErrors, Effect.catching_of_error hb]
  rfl

/-- A reply is made of a result. -/
theorem map_eq_ok {β : Type} {f : α → β} {m : Sql α} {c c' : Connection} {b : β}
    (h : (f <$> m) c = (.ok b, c')) : ∃ a, m c = (.ok a, c') ∧ f a = b := by
  obtain ⟨a, d, h₁, h₂⟩ := Effect.bind_eq_ok.mp h
  obtain ⟨h₃, rfl⟩ := Prod.mk.inj h₂
  exact ⟨a, h₁, by simpa using h₃⟩

/-! ## The shared statements -/

namespace Database

variable (db : Database)

/-- A session is found exactly when it has a row. -/
theorem session?_isSome {sessionId : String} :
    (db.session? sessionId).isSome ↔ db.HasSession sessionId := by
  simp [session?, HasSession]

/-- No session is found exactly when none has a row. -/
theorem session?_eq_none {sessionId : String} :
    db.session? sessionId = none ↔ ¬ db.HasSession sessionId := by
  rw [← session?_isSome]
  simp

/-- No active run is found exactly when the session has none. -/
theorem activeRun?_eq_none {sessionId : String} :
    db.activeRun? sessionId = none ↔ ¬ db.HasActiveRun sessionId := by
  simp [activeRun?, HasActiveRun]

/-- What is found is an active row of the session. -/
theorem activeRun?_eq_some {sessionId : String} {row : RunRow}
    (h : db.activeRun? sessionId = some row) :
    row ∈ db.runs ∧ row.sessionId = sessionId ∧ row.status = .active :=
  ⟨List.mem_of_find?_eq_some h, by simpa using List.find?_some h⟩

/-- What is found is the row of that run in that session. -/
theorem run?_eq_some {sessionId runId : String} {row : RunRow}
    (h : db.run? sessionId runId = some row) :
    row ∈ db.runs ∧ row.sessionId = sessionId ∧ row.id = runId :=
  ⟨List.mem_of_find?_eq_some h, by simpa using List.find?_some h⟩

/-- No run is found exactly when the session has none of that id. -/
theorem run?_eq_none {sessionId runId : String} :
    db.run? sessionId runId = none ↔
      ∀ row ∈ db.runs, row.sessionId = sessionId → row.id ≠ runId := by
  simp [run?]

end Database

/-- `_require_session` let the session pass: it exists. -/
theorem requireSession_within_eq_ok {sessionId : String} {db working : Database} {u : Unit}
    {c : Connection} (h : requireSession sessionId (.within db working) = (.ok u, c)) :
    working.HasSession sessionId ∧ c = .within db working := by
  rw [requireSession, Effect.bind_of_ok (query_apply _ rfl)] at h
  cases hs : working.session? sessionId with
  | none =>
    simp [Connection.view, hs] at h
  | some row =>
    simp only [Connection.view, Option.getD_some, hs, Effect.pure_apply] at h
    exact ⟨working.session?_isSome.mp (by rw [hs]; rfl), (Prod.mk.inj h).2.symm⟩

/-- `_active_run_for_session` gave nothing for a session without an active run, and else the decoded
active row. -/
theorem activeRunForSession_within_eq_ok {sessionId : String} {db working : Database}
    {active : Option ActiveRun} {c : Connection}
    (h : activeRunForSession sessionId (.within db working) = (.ok active, c)) :
    c = .within db working ∧ match active with
      | none => ¬ working.HasActiveRun sessionId
      | some run => ∃ row, working.activeRun? sessionId = some row ∧
          activeRunFromRow row = .ok run := by
  rw [activeRunForSession, Effect.bind_of_ok (query_apply _ rfl)] at h
  simp only [Connection.view, Option.getD_some] at h
  cases hs : working.activeRun? sessionId with
  | none =>
    rw [hs] at h
    obtain ⟨h₁, rfl⟩ := Prod.mk.inj h
    obtain rfl : none = active := by simpa using h₁
    exact ⟨rfl, working.activeRun?_eq_none.mp hs⟩
  | some row =>
    rw [hs] at h
    obtain ⟨run, c', hrow, hpure⟩ := Effect.bind_eq_ok.mp h
    obtain ⟨h₁, rfl⟩ := Prod.mk.inj hrow
    obtain ⟨h₂, rfl⟩ := Prod.mk.inj hpure
    obtain rfl : some run = active := by simpa using h₂
    exact ⟨rfl, row, rfl, h₁⟩

/-- `_reject_active_run` lets only an absent run pass. -/
theorem rejectActiveRun_eq_ok {active : Option ActiveRun} {c c' : Connection} {u : Unit}
    (h : rejectActiveRun active c = (.ok u, c')) : active = none ∧ c' = c := by
  cases active with
  | none => exact ⟨rfl, (Prod.mk.inj h).2.symm⟩
  | some run => simp [rejectActiveRun] at h

/-- `_reject_existing_session` let the id pass: no session has it. -/
theorem rejectExistingSession_within_eq_ok {sessionId : String} {db working : Database} {u : Unit}
    {c : Connection} (h : rejectExistingSession sessionId (.within db working) = (.ok u, c)) :
    ¬ working.HasSession sessionId ∧ c = .within db working := by
  rw [rejectExistingSession, Effect.bind_of_ok (query_apply _ rfl)] at h
  simp only [Connection.view, Option.getD_some] at h
  cases hs : working.session? sessionId with
  | none =>
    rw [hs] at h
    exact ⟨working.session?_eq_none.mp hs, (Prod.mk.inj h).2.symm⟩
  | some row => simp [hs] at h

/-- `_insert_session` appended the row of a new session. -/
theorem insertSession_within_eq_ok {record : SessionRecord} {db working : Database} {u : Unit}
    {c : Connection} (h : insertSession record (.within db working) = (.ok u, c)) :
    ¬ working.HasSession record.id ∧
      c = .within db { working with sessions := working.sessions ++ [sessionValues record] } := by
  obtain ⟨working', hact, rfl⟩ := execute_within_eq_ok h
  rw [Database.insertSession] at hact
  split at hact
  · simp at hact
  · next hnew =>
    simp only [Except.ok.injEq, Prod.mk.injEq, true_and] at hact
    exact ⟨hnew, by rw [hact]⟩

/-- `_insert_run` appended the row of a run whose id was free. -/
theorem insertRun_within_eq_ok {record : ActiveRun} {db working : Database} {u : Unit}
    {c : Connection} (h : insertRun record (.within db working) = (.ok u, c)) :
    ¬ working.HasRun record.id ∧
      c = .within db { working with runs := working.runs ++ [runValues record] } := by
  rw [insertRun] at h
  rcases hact : working.insertRun (runValues record) with e | ⟨v, working'⟩
  · rw [Effect.catching_of_error (execute_within_error hact)] at h
    cases e with
    | operational => simp at h
    | integrity =>
      obtain ⟨found, d, -, h⟩ := Effect.bind_eq_ok.mp h
      cases found <;> simp at h
  · rw [Effect.catching_of_ok (execute_within_ok hact)] at h
    obtain ⟨-, rfl⟩ := Prod.mk.inj h
    rw [Database.insertRun] at hact
    split at hact
    · simp at hact
    · next hfree =>
      simp only [Except.ok.injEq, Prod.mk.injEq, true_and] at hact
      exact ⟨fun hrun => hfree (.inl hrun), by rw [hact]⟩

/-- The runs of a database after a terminal update. -/
def finishedRuns (record : TerminalRun) (outcomeJson : Json) (runs : List RunRow) : List RunRow :=
  runs.map
    (Database.finishedRow record.status record.endedAt outcomeJson record.id record.sessionId)

/-- `_finalize_active_run` serialized the outcome and wrote it into the row. -/
theorem finalizeActiveRun_within_eq_ok {record : TerminalRun} {db working : Database} {u : Unit}
    {c : Connection} (h : finalizeActiveRun record (.within db working) = (.ok u, c)) :
    ∃ outcomeJson, dumpOutcome record.outcome = some outcomeJson ∧
      c = .within db { working with runs := finishedRuns record outcomeJson working.runs } := by
  rw [finalizeActiveRun] at h
  cases hdump : dumpOutcome record.outcome with
  | none => simp [hdump] at h
  | some outcomeJson =>
    rw [hdump] at h
    refine ⟨outcomeJson, rfl, ?_⟩
    obtain ⟨rowCount, c', hupdate, h⟩ := Effect.bind_eq_ok.mp h
    obtain ⟨working', hact, rfl⟩ := execute_within_eq_ok hupdate
    simp only [Database.finishRun, TerminalRun.status, terminalStatusFor_ne_active, and_false,
      if_false, Except.ok.injEq, Prod.mk.injEq] at hact
    obtain ⟨rfl, rfl⟩ := hact
    split at h
    · simp at h
    · exact (Prod.mk.inj h).2.symm

/-- A history row that the database accepts is appended. -/
theorem insertHistory_eq_ok {row : HistoryRow} {working working' : Database} {u : Unit}
    (h : working.insertHistory row = .ok (u, working')) :
    working' = { working with historyItems := working.historyItems ++ [row] } := by
  rw [Database.insertHistory] at h
  split at h
  · simp at h
  · simp only [Except.ok.injEq, Prod.mk.injEq, true_and] at h
    exact h.symm

/-- Rows that are all accepted are appended in their order. -/
theorem executeMany_insertHistory_within_eq_ok {db : Database} {u : Unit} {c : Connection} :
    ∀ {rows : List HistoryRow} {working : Database},
      executeMany Database.insertHistory rows (.within db working) = (.ok u, c) →
        c = .within db { working with historyItems := working.historyItems ++ rows }
  | [], working, h => by
    obtain ⟨-, rfl⟩ := Prod.mk.inj h
    simp
  | row :: rest, working, h => by
    obtain ⟨v, c', hrow, hrest⟩ := Effect.bind_eq_ok.mp h
    obtain ⟨working', hact, rfl⟩ := execute_within_eq_ok hrow
    obtain rfl := insertHistory_eq_ok hact
    rw [executeMany_insertHistory_within_eq_ok hrest]
    simp

/-- `_insert_history_delta` appended one row per item, from the session's next position on. -/
theorem insertHistoryDelta_within_eq_ok {uuid : Nat → String} {run : TerminalRun}
    {items : List ConversationItem} {db working : Database} {u : Unit} {c : Connection}
    (h : insertHistoryDelta uuid run items (.within db working) = (.ok u, c)) :
    c = .within db
      { working with
        historyItems := working.historyItems
          ++ deltaRows uuid run (working.nextPosition run.sessionId) items } := by
  rw [insertHistoryDelta] at h
  split at h
  · next hempty =>
    obtain ⟨-, rfl⟩ := Prod.mk.inj h
    rw [List.isEmpty_iff.mp hempty]
    simp [deltaRows]
  · rw [nextHistoryPosition, Effect.bind_of_ok (query_apply _ rfl)] at h
    exact executeMany_insertHistory_within_eq_ok h

/-- A session row that decodes is the row of its record. -/
theorem sessionFromRow_eq_ok {row : SessionRow} {record : SessionRecord}
    (h : sessionFromRow row = .ok record) : sessionValues record = row := by
  rw [sessionFromRow] at h
  split at h
  · simp only [Except.ok.injEq] at h
    rw [← h]
    rfl
  · simp at h

/-- `_touch_session` moved the session's time forward, never back. -/
theorem touchSession_within_eq_ok {run : TerminalRun} {db working : Database} {u : Unit}
    {c : Connection} (h : touchSession run (.within db working) = (.ok u, c)) :
    ∃ row, working.session? run.sessionId = some row ∧
      c = .within db (working.touchSession (max row.updatedAt run.endedAt) run.sessionId) := by
  rw [touchSession, getSessionRecord] at h
  obtain ⟨current, c', hget, h⟩ := Effect.bind_eq_ok.mp h
  rw [Effect.bind_of_ok (query_apply _ rfl)] at hget
  simp only [Connection.view, Option.getD_some] at hget
  cases hs : working.session? run.sessionId with
  | none => simp [hs] at hget
  | some row =>
    rw [hs] at hget
    obtain ⟨hrow, rfl⟩ := Prod.mk.inj hget
    obtain rfl := sessionFromRow_eq_ok hrow
    obtain ⟨working', hact, rfl⟩ := execute_within_eq_ok h
    simp only [Except.ok.injEq, Prod.mk.injEq, true_and] at hact
    exact ⟨_, rfl, by rw [← hact]; rfl⟩

/-- `_require_session` outside a transaction. -/
theorem requireSession_idle_eq_ok {sessionId : String} {db : Database} {u : Unit} {c : Connection}
    (h : requireSession sessionId (.idle db) = (.ok u, c)) :
    db.HasSession sessionId ∧ c = .idle db := by
  rw [requireSession, Effect.bind_of_ok (query_apply _ rfl)] at h
  cases hs : db.session? sessionId with
  | none => simp [Connection.view, hs] at h
  | some row =>
    simp only [Connection.view, Option.getD_none, hs, Effect.pure_apply] at h
    exact ⟨db.session?_isSome.mp (by rw [hs]; rfl), (Prod.mk.inj h).2.symm⟩

/-- An operation that only reads leaves an idle connection as it was. -/
theorem ReadSafe.run_idle {operation : StoreOperation} {m : Sql α} (hm : ReadSafe m)
    (f : α → Reply) (db : Database) :
    ((f <$> translateStoreErrors operation m) (.idle db)).2 = .idle db := by
  have hidle : (m (.idle db)).2 = .idle db := (hm (.idle db)).1
  rcases h : m (.idle db) with ⟨e | a, c⟩ <;> rw [h] at hidle <;> obtain rfl : c = .idle db := hidle
  · rcases e with e | e
    · exact congrArg Prod.snd (Effect.bind_of_error (Effect.catching_of_error h _) _)
    · exact congrArg Prod.snd (Effect.bind_of_error (Effect.catching_of_error h _) _)
  · exact congrArg Prod.snd (Effect.bind_of_ok (Effect.catching_of_ok h _) _)

variable [JsonParser]

/-- **A call that replied**: its method did, on a healthy backend. -/
theorem Call.run_eq_ok {call : Call} {ambient : Ambient} {db db' : Database} {reply : Reply}
    (h : call.run ambient db = (.ok reply, db')) :
    ∃ c, call.method ambient (.idle db) = (.ok reply, c) ∧ c.committed = db' := by
  rcases call.run_eq_healthy_or_fault ambient db with hrun | ⟨e, hrun, -⟩
  · rw [h, Call.run_healthy] at hrun
    obtain ⟨h₁, h₂⟩ := Prod.mk.inj hrun
    exact ⟨_, Prod.ext h₁.symm rfl, h₂.symm⟩
  · rw [h] at hrun
    simp at hrun

/-- The decoded committed history of a session. -/
def Database.history (db : Database) (sessionId : String) : Except PyError (List HistoryItem) :=
  (db.historyRows sessionId).mapM historyFromRow

/-- `_history_for_session` gave the decoded rows of the session. -/
theorem historyForSession_eq_ok {sessionId : String} {c c' : Connection} (hc : c.faults = [])
    {items : List HistoryItem} (h : historyForSession sessionId c = (.ok items, c')) :
    c.view.history sessionId = .ok items ∧ c' = c := by
  rw [historyForSession, Effect.bind_of_ok (query_apply _ hc)] at h
  exact ⟨(Prod.mk.inj h).1, (Prod.mk.inj h).2.symm⟩

/-- `_get_run` gave the decoded row of the run. -/
theorem getRunRecord_within_eq_ok {sessionId runId : String} {db working : Database}
    {record : RunRecord} {c : Connection}
    (h : getRunRecord sessionId runId (.within db working) = (.ok record, c)) :
    c = .within db working ∧
      ∃ row, working.run? sessionId runId = some row ∧ runFromRow row = .ok record := by
  rw [getRunRecord, Effect.bind_of_ok (query_apply _ rfl)] at h
  simp only [Connection.view, Option.getD_some] at h
  cases hs : working.run? sessionId runId with
  | none => simp [hs] at h
  | some row =>
    rw [hs] at h
    obtain ⟨h₁, rfl⟩ := Prod.mk.inj h
    exact ⟨rfl, row, rfl, h₁⟩

/-! ## The operations -/

/-- A session was created: its id was free, and its row is the only change. -/
theorem createSession_eq_ok {ambient : Ambient} {sessionId : String} {db db' : Database}
    {reply : Reply} (h : (Call.createSession sessionId).run ambient db = (.ok reply, db')) :
    ¬ db.HasSession sessionId ∧ reply = .session (newSessionRecord ambient.now sessionId) ∧
      db' = { db with
        sessions := db.sessions ++ [⟨sessionId, ambient.now, ambient.now⟩] } := by
  obtain ⟨c, hmethod, rfl⟩ := Call.run_eq_ok h
  obtain ⟨record, hop, rfl⟩ := map_eq_ok hmethod
  have hop := translateStoreErrors_eq_ok hop
  rcases htx : immediateTransaction (do
      let record := newSessionRecord ambient.now sessionId
      insertSession record
      return record) (.idle db) with ⟨e | a, d⟩
  · rw [Effect.catching_of_error htx] at hop
    match e, hop with
    | .backend (.sqlite .integrity), hop => simp at hop
    | .backend (.sqlite .operational), hop | .backend (.value _), hop | .store _, hop => simp at hop
  · rw [Effect.catching_of_ok htx] at hop
    obtain ⟨h₁, rfl⟩ := Prod.mk.inj hop
    obtain rfl : a = record := by simpa using h₁
    obtain ⟨c', hbody, hcom⟩ := immediateTransaction_eq_ok htx
    obtain ⟨v, c₁, hinsert, hpure⟩ := Effect.bind_eq_ok.mp hbody
    obtain ⟨hnew, rfl⟩ := insertSession_within_eq_ok hinsert
    obtain ⟨h₂, rfl⟩ := Prod.mk.inj hpure
    obtain rfl : newSessionRecord ambient.now sessionId = a := by simpa using h₂
    exact ⟨hnew, rfl, hcom⟩

/-- A run was started: its session was there and idle and read well, its id was free, and its row is
the only change. -/
theorem startRun_eq_ok {ambient : Ambient} {sessionId runId prompt model provider : String}
    {db db' : Database} {reply : Reply}
    (h : (Call.startRun sessionId runId prompt model provider).run ambient db
      = (.ok reply, db')) :
    db.HasSession sessionId ∧ ¬ db.HasActiveRun sessionId ∧ ¬ db.HasRun runId ∧
      ∃ items, db.history sessionId = .ok items ∧
        reply = .started
          { run := newActiveRunRecord ambient.now runId sessionId prompt model provider,
            committedHistory := items } ∧
        db' = { db with
          runs := db.runs ++ [runValues
            (newActiveRunRecord ambient.now runId sessionId prompt model provider)] } := by
  obtain ⟨c, hmethod, rfl⟩ := Call.run_eq_ok h
  obtain ⟨started, hop, rfl⟩ := map_eq_ok hmethod
  obtain ⟨c', hbody, hcom⟩ := immediateTransaction_eq_ok (translateStoreErrors_eq_ok hop)
  obtain ⟨_, c₁, hsession, hbody⟩ := Effect.bind_eq_ok.mp hbody
  obtain ⟨hexists, rfl⟩ := requireSession_within_eq_ok hsession
  obtain ⟨active, c₂, hactive, hbody⟩ := Effect.bind_eq_ok.mp hbody
  obtain ⟨rfl, hnone⟩ := activeRunForSession_within_eq_ok hactive
  obtain ⟨_, c₃, hreject, hbody⟩ := Effect.bind_eq_ok.mp hbody
  obtain ⟨rfl, rfl⟩ := rejectActiveRun_eq_ok hreject
  obtain ⟨items, c₄, hhistory, hbody⟩ := Effect.bind_eq_ok.mp hbody
  obtain ⟨hitems, rfl⟩ := historyForSession_eq_ok rfl hhistory
  obtain ⟨_, c₅, hinsert, hpure⟩ := Effect.bind_eq_ok.mp hbody
  obtain ⟨hfree, rfl⟩ := insertRun_within_eq_ok hinsert
  obtain ⟨h₁, rfl⟩ := Prod.mk.inj hpure
  obtain rfl : _ = started := by simpa using h₁
  exact ⟨hexists, hnone, hfree, items, hitems, rfl, hcom⟩

/-- The database after a run was finalized: its row, its delta, its session. -/
def finalizedDatabase (uuid : Nat → String) (record : TerminalRun) (outcomeJson : Json)
    (historyDelta : List ConversationItem) (updatedAt : Timestamp) (db : Database) : Database :=
  Database.touchSession (max updatedAt record.endedAt) record.sessionId
    { db with
      runs := finishedRuns record outcomeJson db.runs
      historyItems := db.historyItems
        ++ deltaRows uuid record (db.nextPosition record.sessionId) historyDelta }

/-- A run was finished: its row decoded as active, the outcome serialized, its session was there. -/
theorem finishRun_eq_ok {ambient : Ambient} {sessionId runId : String} {outcome : RunOutcome}
    {historyDelta : List ConversationItem} {db db' : Database} {reply : Reply}
    (h : (Call.finishRun sessionId runId outcome historyDelta).run ambient db
      = (.ok reply, db')) :
    ∃ row run outcomeJson sessionRow, db.run? sessionId runId = some row ∧
      runFromRow row = .ok (.active run) ∧ dumpOutcome outcome = some outcomeJson ∧
      db.session? run.sessionId = some sessionRow ∧
      reply = .finished (terminalRunRecord ambient.now run outcome) ∧
      db' = finalizedDatabase ambient.uuid (terminalRunRecord ambient.now run outcome) outcomeJson
        historyDelta sessionRow.updatedAt db := by
  obtain ⟨c, hmethod, rfl⟩ := Call.run_eq_ok h
  obtain ⟨finished, hop, rfl⟩ := map_eq_ok hmethod
  obtain ⟨c', hbody, hcom⟩ := immediateTransaction_eq_ok (translateStoreErrors_eq_ok hop)
  obtain ⟨record, c₁, hget, hbody⟩ := Effect.bind_eq_ok.mp hbody
  obtain ⟨rfl, row, hrow, hrecord⟩ := getRunRecord_within_eq_ok hget
  cases record with
  | terminal run => simp at hbody
  | active run =>
    obtain ⟨_, c₂, hfinalize, hbody⟩ := Effect.bind_eq_ok.mp hbody
    obtain ⟨outcomeJson, hdump, rfl⟩ := finalizeActiveRun_within_eq_ok hfinalize
    obtain ⟨_, c₃, hinsert, hbody⟩ := Effect.bind_eq_ok.mp hbody
    obtain rfl := insertHistoryDelta_within_eq_ok hinsert
    obtain ⟨_, c₄, htouch, hpure⟩ := Effect.bind_eq_ok.mp hbody
    obtain ⟨sessionRow, hsession, rfl⟩ := touchSession_within_eq_ok htouch
    obtain ⟨h₁, rfl⟩ := Prod.mk.inj hpure
    obtain rfl : _ = finished := by simpa using h₁
    exact ⟨row, run, outcomeJson, sessionRow, hrow, hrecord, hdump, hsession, rfl, hcom⟩

/-- An abort replied: there was no active run and nothing happened, or the run found was finalized
as cancelled with an empty delta. -/
theorem abortActiveRun_eq_ok {ambient : Ambient} {sessionId : String} {db db' : Database}
    {reply : Reply} (h : (Call.abortActiveRun sessionId).run ambient db = (.ok reply, db')) :
    db.HasSession sessionId ∧
      ((¬ db.HasActiveRun sessionId ∧ reply = .aborted none ∧ db' = db) ∨
        ∃ row run outcomeJson sessionRow, db.activeRun? sessionId = some row ∧
          activeRunFromRow row = .ok run ∧
          dumpOutcome (.aborted .cancelled) = some outcomeJson ∧
          db.session? run.sessionId = some sessionRow ∧
          reply = .aborted (some (terminalRunRecord ambient.now run (.aborted .cancelled))) ∧
          db' = finalizedDatabase ambient.uuid
            (terminalRunRecord ambient.now run (.aborted .cancelled)) outcomeJson []
            sessionRow.updatedAt db) := by
  obtain ⟨c, hmethod, rfl⟩ := Call.run_eq_ok h
  obtain ⟨aborted, hop, rfl⟩ := map_eq_ok hmethod
  obtain ⟨c', hbody, hcom⟩ := immediateTransaction_eq_ok (translateStoreErrors_eq_ok hop)
  obtain ⟨_, c₁, hsession, hbody⟩ := Effect.bind_eq_ok.mp hbody
  obtain ⟨hexists, rfl⟩ := requireSession_within_eq_ok hsession
  obtain ⟨active, c₂, hactive, hbody⟩ := Effect.bind_eq_ok.mp hbody
  obtain ⟨rfl, hcase⟩ := activeRunForSession_within_eq_ok hactive
  refine ⟨hexists, ?_⟩
  cases active with
  | none =>
    obtain ⟨h₁, rfl⟩ := Prod.mk.inj hbody
    obtain rfl : none = aborted := by simpa using h₁
    exact .inl ⟨hcase, rfl, hcom⟩
  | some run =>
    obtain ⟨row, hrow, hrecord⟩ := hcase
    obtain ⟨_, c₂, hfinalize, hbody⟩ := Effect.bind_eq_ok.mp hbody
    obtain ⟨outcomeJson, hdump, rfl⟩ := finalizeActiveRun_within_eq_ok hfinalize
    obtain ⟨_, c₄, htouch, hpure⟩ := Effect.bind_eq_ok.mp hbody
    obtain ⟨sessionRow, hsessionRow, rfl⟩ := touchSession_within_eq_ok htouch
    obtain ⟨h₁, rfl⟩ := Prod.mk.inj hpure
    obtain rfl : some _ = aborted := by simpa using h₁
    refine .inr ⟨row, run, outcomeJson, sessionRow, hrow, hrecord, hdump, hsessionRow, rfl, ?_⟩
    rw [hcom, finalizedDatabase]
    simp [deltaRows, Connection.view, Database.touchSession]

/-- A session was forked: the source read well, the target was free, and the target's rows are the
only change. -/
theorem forkSession_eq_ok {ambient : Ambient} {source target : String} {db db' : Database}
    {reply : Reply} (h : (Call.forkSession source target).run ambient db = (.ok reply, db')) :
    db.HasSession source ∧ ¬ db.HasSession target ∧
      ∃ items, db.history source = .ok items ∧
        reply = .session (newSessionRecord ambient.now target) ∧
        db' = { db with
          sessions := db.sessions ++ [⟨target, ambient.now, ambient.now⟩]
          historyItems := db.historyItems ++ copiedRows ambient.uuid items target } := by
  obtain ⟨c, hmethod, rfl⟩ := Call.run_eq_ok h
  obtain ⟨record, hop, rfl⟩ := map_eq_ok hmethod
  obtain ⟨c', hbody, hcom⟩ := immediateTransaction_eq_ok (translateStoreErrors_eq_ok hop)
  obtain ⟨_, c₁, hsession, hbody⟩ := Effect.bind_eq_ok.mp hbody
  obtain ⟨hexists, rfl⟩ := requireSession_within_eq_ok hsession
  obtain ⟨_, c₂, hreject, hbody⟩ := Effect.bind_eq_ok.mp hbody
  obtain ⟨hnew, rfl⟩ := rejectExistingSession_within_eq_ok hreject
  obtain ⟨_, c₃, hinsert, hbody⟩ := Effect.bind_eq_ok.mp hbody
  obtain ⟨-, rfl⟩ := insertSession_within_eq_ok hinsert
  obtain ⟨items, c₄, hhistory, hbody⟩ := Effect.bind_eq_ok.mp hbody
  obtain ⟨hitems, rfl⟩ := historyForSession_eq_ok rfl hhistory
  obtain ⟨_, c₅, hcopy, hpure⟩ := Effect.bind_eq_ok.mp hbody
  obtain rfl := executeMany_insertHistory_within_eq_ok hcopy
  obtain ⟨h₁, rfl⟩ := Prod.mk.inj hpure
  obtain rfl : _ = record := by simpa using h₁
  exact ⟨hexists, hnew, items, hitems, rfl, hcom⟩

/-! ## The reads -/

/-- The calls that only read. -/
def Call.Reads : Call → Prop
  | .getSession _ | .listSessions | .getHistory _ | .getRun _ _ | .listRuns _ => True
  | .createSession _ | .startRun _ _ _ _ _ | .finishRun _ _ _ _ | .abortActiveRun _
  | .forkSession _ _ => False

/-- **A read changes nothing.** -/
theorem Call.run_reads {call : Call} (hreads : call.Reads) (ambient : Ambient) (db : Database) :
    (call.run ambient db).2 = db := by
  have hidle : (call.method ambient (.idle db)).2 = .idle db := by
    match call, hreads with
    | .getSession _, _ => exact (ReadSafe.getSessionRecord _).run_idle _ db
    | .listSessions, _ => exact (ReadSafe.bind (.query _) fun _ => .lift _).run_idle _ db
    | .getHistory _, _ =>
      exact (ReadSafe.bind (.requireSession _) fun _ => .historyForSession _).run_idle _ db
    | .getRun _ _, _ => exact (ReadSafe.getRunRecord _ _).run_idle _ db
    | .listRuns _, _ =>
      exact (ReadSafe.bind (.requireSession _) fun _ =>
        ReadSafe.bind (.query _) fun _ => .lift _).run_idle _ db
  rcases call.run_eq_healthy_or_fault ambient db with hrun | ⟨e, hrun, -⟩
  · rw [hrun, Call.run_healthy, hidle]
  · rw [hrun]

/-- A history was read: the session was there, and the reply is its decoded history. -/
theorem getHistory_eq_ok {ambient : Ambient} {sessionId : String} {db db' : Database}
    {reply : Reply} (h : (Call.getHistory sessionId).run ambient db = (.ok reply, db')) :
    db.HasSession sessionId ∧ ∃ items, db.history sessionId = .ok items ∧
      reply = .history items := by
  obtain ⟨c, hmethod, rfl⟩ := Call.run_eq_ok h
  obtain ⟨items, hop, rfl⟩ := map_eq_ok hmethod
  obtain ⟨_, c₁, hsession, hhistory⟩ := Effect.bind_eq_ok.mp (translateStoreErrors_eq_ok hop)
  obtain ⟨hexists, rfl⟩ := requireSession_idle_eq_ok hsession
  exact ⟨hexists, items, (historyForSession_eq_ok rfl hhistory).1, rfl⟩

/-- On a healthy backend the history of a session that decodes is read. -/
theorem getHistory_healthy (ambient : Ambient) {sessionId : String} {db : Database}
    (hs : db.HasSession sessionId) {items : List HistoryItem}
    (hitems : db.history sessionId = .ok items) :
    (Call.getHistory sessionId).run ambient.healthy db = (.ok (.history items), db) := by
  obtain ⟨row, hrow⟩ := Option.isSome_iff_exists.mp (db.session?_isSome.mpr hs)
  have hrequire : requireSession sessionId (.idle db) = (.ok (), .idle db) := by
    rw [requireSession, Effect.bind_of_ok (query_apply _ rfl)]
    simp only [Connection.view, Option.getD_none, hrow]
    rfl
  have hread : historyForSession sessionId (.idle db) = (.ok items, .idle db) := by
    rw [historyForSession, Effect.bind_of_ok (query_apply _ rfl)]
    exact congrArg (·, Connection.idle db) hitems
  have hop : SQLiteStore.getHistory sessionId (.idle db) = (.ok items, .idle db) :=
    Effect.catching_of_ok ((Effect.bind_of_ok hrequire _).trans hread) _
  have hmethod : (Call.getHistory sessionId).method ambient (.idle db)
      = (.ok (.history items), .idle db) := Effect.bind_of_ok hop _
  rw [Call.run_healthy, hmethod]

/-- A run was read: its row was there, and the reply is the decoded row. -/
theorem getRun_eq_ok {ambient : Ambient} {sessionId runId : String} {db db' : Database}
    {reply : Reply} (h : (Call.getRun sessionId runId).run ambient db = (.ok reply, db')) :
    ∃ row record, db.run? sessionId runId = some row ∧ runFromRow row = .ok record ∧
      reply = .run record := by
  obtain ⟨c, hmethod, rfl⟩ := Call.run_eq_ok h
  obtain ⟨record, hop, rfl⟩ := map_eq_ok hmethod
  have hget := translateStoreErrors_eq_ok hop
  rw [getRunRecord, Effect.bind_of_ok (query_apply _ rfl)] at hget
  simp only [Connection.view, Option.getD_none] at hget
  cases hs : db.run? sessionId runId with
  | none => simp [hs] at hget
  | some row =>
    rw [hs] at hget
    exact ⟨row, record, rfl, (Prod.mk.inj hget).1, rfl⟩

end Tile
