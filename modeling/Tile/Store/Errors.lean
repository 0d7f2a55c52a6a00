import Tile.Store.Lifecycle

/-!
# Store/Errors — which error a call raises

`Call.documentedError` lists what the interface promises: the error of the first check that fails,
and none when the call succeeds.  **On a healthy backend and a reachable database a call raises
exactly that** (`store_errors_documented`), as long as the parser reads what the calls were given to
store; a history nested too deep makes later calls fail instead.  Each write of each operation is
shown to satisfy every constraint of the three tables, so a constraint never speaks in place of a
domain check.
-/

namespace Tile

variable {α β : Type}

/-! ## The documented errors -/

namespace Database

/-- The run is in the database, and belongs to the session. -/
def OwnsRun (db : Database) (sessionId runId : String) : Prop :=
  ∃ row ∈ db.runs, row.sessionId = sessionId ∧ row.id = runId

instance (db : Database) (sessionId runId : String) : Decidable (db.OwnsRun sessionId runId) := by
  unfold OwnsRun
  infer_instance

instance (db : Database) (runId : String) : Decidable (db.Ended runId) := by
  unfold Ended
  infer_instance

end Database

/-- The error a call is documented to raise, if any. -/
def Call.documentedError (db : Database) : Call → Option StoreError
  | .createSession sessionId =>
    if db.HasSession sessionId then some (.sessionAlreadyExists sessionId) else none
  | .startRun sessionId runId _ _ _ =>
    if ¬ db.HasSession sessionId then some (.sessionNotFound sessionId)
    else if db.HasActiveRun sessionId then some (.activeRun sessionId)
    else if db.HasRun runId then some (.runAlreadyExists runId)
    else none
  | .finishRun sessionId runId _ _ =>
    if ¬ db.OwnsRun sessionId runId then some (.runNotFound runId sessionId)
    else if db.Ended runId then some (.runAlreadyEnded runId)
    else none
  | .forkSession source target =>
    if ¬ db.HasSession source then some (.sessionNotFound source)
    else if db.HasSession target then some (.sessionAlreadyExists target)
    else none
  | .getRun sessionId runId =>
    if ¬ db.OwnsRun sessionId runId then some (.runNotFound runId sessionId) else none
  | .abortActiveRun sessionId | .getSession sessionId | .getHistory sessionId
  | .listRuns sessionId =>
    if ¬ db.HasSession sessionId then some (.sessionNotFound sessionId) else none
  | .listSessions => none

/-- A persistence error is documented for no state of the database. -/
theorem Call.documentedError_ne_persistence (call : Call) {db : Database}
    {operation : StoreOperation} {cause : BackendError} :
    call.documentedError db ≠ some (.persistence operation cause) := by
  cases call <;> simp only [documentedError] <;> (repeat' split) <;> simp

/-- The arguments of the call serialize. -/
def Call.Serializes : Call → Prop
  | .finishRun _ _ outcome _ => ∃ outcomeJson, dumpOutcome outcome = some outcomeJson
  | _ => True

/-- The drawn ids are new, as those of `uuid4` are. -/
structure Ambient.Fresh (ambient : Ambient) (db : Database) : Prop where
  injective : Function.Injective ambient.uuid
  unused : ∀ k, ∀ row ∈ db.historyItems, row.id ≠ ambient.uuid k

/-! ## The shared statements on a healthy backend -/

section Healthy

variable (c : Connection) {sessionId : String}

/-- A session that is there is let pass. -/
theorem requireSession_of_hasSession (hc : c.faults = []) (h : c.view.HasSession sessionId) :
    requireSession sessionId c = (.ok (), c) := by
  obtain ⟨row, hrow⟩ := Option.isSome_iff_exists.mp (c.view.session?_isSome.mpr h)
  rw [requireSession, Effect.bind_of_ok (query_apply _ hc), hrow]
  rfl

/-- A missing session raises. -/
theorem requireSession_of_not_hasSession (hc : c.faults = [])
    (h : ¬ c.view.HasSession sessionId) :
    requireSession sessionId c = (.error (.store (.sessionNotFound sessionId)), c) := by
  rw [requireSession, Effect.bind_of_ok (query_apply _ hc), c.view.session?_eq_none.mpr h]
  rfl

/-- A taken session id raises. -/
theorem rejectExistingSession_of_hasSession (hc : c.faults = [])
    (h : c.view.HasSession sessionId) :
    rejectExistingSession sessionId c = (.error (.store (.sessionAlreadyExists sessionId)), c) := by
  obtain ⟨row, hrow⟩ := Option.isSome_iff_exists.mp (c.view.session?_isSome.mpr h)
  rw [rejectExistingSession, Effect.bind_of_ok (query_apply _ hc), hrow]
  rfl

/-- A free session id is let pass. -/
theorem rejectExistingSession_of_not_hasSession (hc : c.faults = [])
    (h : ¬ c.view.HasSession sessionId) : rejectExistingSession sessionId c = (.ok (), c) := by
  rw [rejectExistingSession, Effect.bind_of_ok (query_apply _ hc), c.view.session?_eq_none.mpr h]
  rfl

/-- No active row gives no active run. -/
theorem activeRunForSession_of_none (hc : c.faults = [])
    (h : ¬ c.view.HasActiveRun sessionId) :
    activeRunForSession sessionId c = (.ok none, c) := by
  rw [activeRunForSession, Effect.bind_of_ok (query_apply _ hc), c.view.activeRun?_eq_none.mpr h]
  rfl

/-- The active row decodes, as it was written. -/
theorem activeRunForSession_of_some (hc : c.faults = []) {row : RunRow}
    (h : c.view.activeRun? sessionId = some row) (hwritten : row.Written) :
    activeRunForSession sessionId c = (.ok (some row.activeRun), c) := by
  obtain ⟨-, -, hactive⟩ := c.view.activeRun?_eq_some h
  have hrow : activeRunFromRow row = .ok row.activeRun := by
    rcases hwritten with ⟨-, hended, houtcome⟩ | ⟨_, _, outcome, _, _, _, hstatus, _⟩
    · simp [activeRunFromRow, hactive, hended, houtcome, RunRow.activeRun]
    · exact absurd (hstatus.trans hactive) (terminalStatusFor_ne_active outcome)
  rw [activeRunForSession, Effect.bind_of_ok (query_apply _ hc), h]
  have hlift : (Effect.lift fun _ => activeRunFromRow row : Sql ActiveRun) c
      = (.ok row.activeRun, c) := by
    rw [Effect.lift_apply, hrow]
  exact Effect.bind_of_ok hlift _

end Healthy

/-! ## Writes that satisfy every constraint -/

section Writes

variable {db working : Database}

/-- The insertion of a session whose id is free goes through. -/
theorem insertSession_within (record : SessionRecord) (h : ¬ working.HasSession record.id) :
    insertSession record (.within db working)
      = (.ok (), .within db
          { working with sessions := working.sessions ++ [sessionValues record] }) :=
  execute_within_ok (if_neg h)

/-- The insertion of a run whose id is free into an idle session goes through. -/
theorem insertRun_within (record : ActiveRun) (hfree : ¬ working.HasRun record.id)
    (hsession : working.HasSession record.sessionId)
    (hactive : ¬ working.HasActiveRun record.sessionId) :
    insertRun record (.within db working)
      = (.ok (), .within db { working with runs := working.runs ++ [runValues record] }) := by
  refine Effect.catching_of_ok (execute_within_ok (if_neg ?_)) _
  rintro (h | h | h | ⟨-, h⟩)
  · exact hfree h
  · exact h (.inl ⟨rfl, rfl, rfl⟩)
  · exact h hsession
  · exact hactive h

/-- The primary key of `runs` is the one constraint a call can meet; its handler names it. -/
theorem insertRun_within_of_hasRun {record : ActiveRun} (h : working.HasRun record.id) :
    insertRun record (.within db working)
      = (.error (.store (.runAlreadyExists record.id)), .within db working) := by
  have hinsert : execute (Database.insertRun (runValues record)) (.within db working)
      = (.error (.backend (.sqlite .integrity)), .within db working) :=
    execute_within_error (if_pos (.inl h))
  have hexists : runExists record.id (.within db working) = (.ok true, .within db working) := by
    rw [runExists, query_apply _ rfl]
    simp [Connection.view, h]
  rw [insertRun, Effect.catching_of_error hinsert]
  exact Effect.bind_of_ok hexists _

theorem finalizeActiveRun_within {record : TerminalRun} {row : RunRow} {outcomeJson : Json}
    (hrow : row ∈ working.runs) (hid : row.id = record.id)
    (hsession : row.sessionId = record.sessionId) (hactive : row.status = .active)
    (hdump : dumpOutcome record.outcome = some outcomeJson) :
    finalizeActiveRun record (.within db working)
      = (.ok (), .within db
          { working with runs := finishedRuns record outcomeJson working.runs }) := by
  have hmatched : (working.runs.filter fun row =>
      row.id = record.id ∧ row.sessionId = record.sessionId ∧ row.status = .active) ≠ [] :=
    List.ne_nil_of_mem (List.mem_filter.mpr ⟨hrow, by simp [hid, hsession, hactive]⟩)
  have hupdate : execute (Database.finishRun record.status record.endedAt outcomeJson record.id
      record.sessionId) (.within db working) = (.ok _, .within db _) :=
    execute_within_ok (if_neg fun h => terminalStatusFor_ne_active record.outcome h.2)
  rw [finalizeActiveRun, hdump]
  refine (Effect.bind_of_ok hupdate _).trans ?_
  rw [if_neg (by simpa using hmatched)]
  rfl

/-- **Rows no constraint of `history_items` objects to**: new ids, new positions, known sessions
and runs. -/
structure Database.Admits (working : Database) (rows : List HistoryRow) : Prop where
  ids : (rows.map (·.id)).Nodup
  ids_new : ∀ row ∈ rows, ∀ old ∈ working.historyItems, old.id ≠ row.id
  positions : (rows.map (·.position)).Nodup
  positions_new : ∀ row ∈ rows, ∀ old ∈ working.historyItems, old.sessionId = row.sessionId →
    old.position ≠ row.position
  sessions : ∀ row ∈ rows, working.HasSession row.sessionId
  runs : ∀ row ∈ rows, working.HasRun row.runId

theorem Database.Admits.insertHistory {row : HistoryRow} {rest : List HistoryRow}
    (h : working.Admits (row :: rest)) :
    working.insertHistory row
      = .ok ((), { working with historyItems := working.historyItems ++ [row] }) := by
  refine if_neg ?_
  rintro (⟨old, hold, hid⟩ | ⟨old, hold, hsession, hposition⟩ | hsession | hrun)
  · exact h.ids_new row (by simp) old hold hid
  · exact h.positions_new row (by simp) old hold hsession hposition
  · exact hsession (h.sessions row (by simp))
  · exact hrun (h.runs row (by simp))

theorem Database.Admits.tail {row : HistoryRow} {rest : List HistoryRow}
    (h : working.Admits (row :: rest)) :
    ({ working with historyItems := working.historyItems ++ [row] } : Database).Admits rest := by
  have hids := List.nodup_cons.mp h.ids
  have hpositions := List.nodup_cons.mp h.positions
  refine
    { ids := hids.2
      ids_new := ?ids_new
      positions := hpositions.2
      positions_new := ?positions_new
      sessions := fun r hr => h.sessions r (List.mem_cons_of_mem _ hr)
      runs := fun r hr => h.runs r (List.mem_cons_of_mem _ hr) }
  case ids_new =>
    intro r hr old hold
    rcases List.mem_append.mp hold with hold | hold
    · exact h.ids_new r (List.mem_cons_of_mem _ hr) old hold
    · obtain rfl := List.mem_singleton.mp hold
      exact fun hid => hids.1 (List.mem_map.mpr ⟨r, hr, hid.symm⟩)
  case positions_new =>
    intro r hr old hold hsession
    rcases List.mem_append.mp hold with hold | hold
    · exact h.positions_new r (List.mem_cons_of_mem _ hr) old hold hsession
    · obtain rfl := List.mem_singleton.mp hold
      exact fun hposition => hpositions.1 (List.mem_map.mpr ⟨r, hr, hposition.symm⟩)

theorem executeMany_insertHistory_within : ∀ {rows : List HistoryRow} {working : Database},
    working.Admits rows →
      executeMany Database.insertHistory rows (.within db working)
        = (.ok (), .within db { working with historyItems := working.historyItems ++ rows })
  | [], working, _ => by simp [executeMany]
  | row :: rest, working, h => by
    rw [executeMany, Effect.bind_of_ok (execute_within_ok h.insertHistory),
      executeMany_insertHistory_within h.tail]
    simp

theorem touchSession_within {run : TerminalRun} {row : SessionRow}
    (hrow : working.session? run.sessionId = some row) (hordered : row.createdAt ≤ row.updatedAt) :
    touchSession run (.within db working)
      = (.ok (), .within db
          (working.touchSession (max row.updatedAt run.endedAt) run.sessionId)) := by
  have hread : sessionFromRow row = .ok ⟨row.id, row.createdAt, row.updatedAt, hordered⟩ :=
    dif_pos hordered
  have hget : getSessionRecord run.sessionId (.within db working)
      = (.ok ⟨row.id, row.createdAt, row.updatedAt, hordered⟩, .within db working) := by
    rw [getSessionRecord, Effect.bind_of_ok (query_apply _ rfl)]
    simp only [Connection.view, Option.getD_some, hrow, Effect.lift_apply, hread]
  rw [touchSession, Effect.bind_of_ok hget]
  exact execute_within_ok rfl

end Writes

/-! ## A well-formed database -/

namespace Database.Valid

variable {db : Database}

theorem position_lt (hv : db.Valid) {old : HistoryRow} (h : old ∈ db.historyItems) :
    old.position < db.nextPosition old.sessionId := by
  obtain ⟨n, hn⟩ := hv.positions old.sessionId
  have hlength : (db.historyItems.filter (·.sessionId = old.sessionId)).length = n := by
    simpa using congrArg List.length hn
  have hmem : old.position ∈ List.range n := hn ▸ List.mem_map_of_mem (by simpa using h)
  rw [hv.nextPosition_eq, hlength]
  exact List.mem_range.mp hmem

/-- A run's delta goes in at the session's next positions. -/
theorem admits_deltaRows (hv : db.Valid) {ambient : Ambient} (hfresh : ambient.Fresh db)
    {row : RunRow} (hrow : row ∈ db.runs) (outcome : RunOutcome) (outcomeJson : Json)
    (delta : List ConversationItem) :
    ({ db with
        runs := finishedRuns (terminalRunRecord ambient.now row.activeRun outcome) outcomeJson
          db.runs } : Database).Admits
      (deltaRows ambient.uuid (terminalRunRecord ambient.now row.activeRun outcome)
        (db.nextPosition row.sessionId) delta) := by
  set record := terminalRunRecord ambient.now row.activeRun outcome with hrecord
  set first := db.nextPosition row.sessionId with hfirst
  have hmem : ∀ {r : HistoryRow}, r ∈ deltaRows ambient.uuid record first delta →
      ∃ k, r.id = ambient.uuid k ∧ r.position = first + k ∧ r.sessionId = row.sessionId ∧
        r.runId = row.id := by
    intro r hr
    obtain ⟨k, hk, rfl⟩ := List.mem_mapIdx.mp hr
    exact ⟨k, rfl, rfl, rfl, rfl⟩
  have hids : (deltaRows ambient.uuid record first delta).map (·.id)
      = (List.range delta.length).map ambient.uuid :=
    List.ext_getElem (by simp [deltaRows]) fun k h h' => by simp [deltaRows, historyValues]
  have hpositions : (deltaRows ambient.uuid record first delta).map (·.position)
      = List.range' first delta.length := by
    rw [deltaRows_eq, List.map_map]
    exact deltaItems_position _ _ _ _
  refine
    { ids := hids ▸ List.nodup_range.map hfresh.injective
      ids_new := ?ids_new
      positions := hpositions ▸ List.nodup_range'
      positions_new := ?positions_new
      sessions := ?sessions
      runs := ?runs }
  case ids_new =>
    intro r hr old hold
    obtain ⟨k, hid, -⟩ := hmem hr
    exact hid ▸ hfresh.unused k old hold
  case positions_new =>
    intro r hr old hold hsession
    obtain ⟨k, -, hposition, hsession', -⟩ := hmem hr
    have hlt := hv.position_lt hold
    rw [hsession, hsession', ← hfirst] at hlt
    omega
  case sessions =>
    intro r hr
    obtain ⟨k, -, -, hsession, -⟩ := hmem hr
    exact hsession ▸ hv.run_session row hrow
  case runs =>
    intro r hr
    obtain ⟨k, -, -, -, hrun⟩ := hmem hr
    exact ⟨_, List.mem_map_of_mem hrow, (Database.finishedRow_id row).trans hrun.symm⟩

/-- The active run of a session, when it has one. -/
theorem activeRun?_of_hasActiveRun {sessionId : String} (h : db.HasActiveRun sessionId) :
    ∃ row, db.activeRun? sessionId = some row := by
  cases hfound : db.activeRun? sessionId with
  | none => exact absurd h (db.activeRun?_eq_none.mp hfound)
  | some row => exact ⟨row, rfl⟩

/-- The database inside the transaction that ends a run, before its session is touched. -/
def finalizing (uuid : Nat → String) (record : TerminalRun) (outcomeJson : Json)
    (delta : List ConversationItem) (db : Database) : Database :=
  { db with
    runs := finishedRuns record outcomeJson db.runs
    historyItems := db.historyItems
      ++ deltaRows uuid record (db.nextPosition record.sessionId) delta }

theorem finalizing_nil (uuid : Nat → String) (record : TerminalRun) (outcomeJson : Json)
    (db : Database) : finalizing uuid record outcomeJson [] db
      = { db with runs := finishedRuns record outcomeJson db.runs } := by
  simp [finalizing, deltaRows]

section Finalize

variable {ambient : Ambient} {row : RunRow} {outcome : RunOutcome} {outcomeJson : Json}

theorem finalizeActiveRun_within (hrow : row ∈ db.runs) (hactive : row.status = .active)
    (hdump : dumpOutcome outcome = some outcomeJson) :
    finalizeActiveRun (terminalRunRecord ambient.now row.activeRun outcome) (.within db db)
      = (.ok (), .within db (finalizing ambient.uuid
          (terminalRunRecord ambient.now row.activeRun outcome) outcomeJson [] db)) := by
  rw [Tile.finalizeActiveRun_within hrow rfl rfl hactive hdump, finalizing_nil]

theorem insertHistoryDelta_within (hv : db.Valid) (hfresh : ambient.Fresh db) (hrow : row ∈ db.runs)
    (delta : List ConversationItem) :
    insertHistoryDelta ambient.uuid (terminalRunRecord ambient.now row.activeRun outcome) delta
        (.within db (finalizing ambient.uuid
          (terminalRunRecord ambient.now row.activeRun outcome) outcomeJson [] db))
      = (.ok (), .within db (finalizing ambient.uuid
          (terminalRunRecord ambient.now row.activeRun outcome) outcomeJson delta db)) := by
  rw [Tile.insertHistoryDelta]
  split
  · next hempty =>
    rw [List.isEmpty_iff.mp hempty]
    rfl
  · rw [nextHistoryPosition, Effect.bind_of_ok (query_apply _ rfl), finalizing_nil]
    exact executeMany_insertHistory_within
      (hv.admits_deltaRows hfresh hrow outcome outcomeJson delta)

theorem touchSession_within (hv : db.Valid) (ambient : Ambient) (hrow : row ∈ db.runs)
    (outcome : RunOutcome) (outcomeJson : Json) (delta : List ConversationItem) : ∃ working,
    Tile.touchSession (terminalRunRecord ambient.now row.activeRun outcome)
        (.within db (finalizing ambient.uuid
          (terminalRunRecord ambient.now row.activeRun outcome) outcomeJson delta db))
      = (.ok (), .within db working) := by
  obtain ⟨sessionRow, hsession⟩ :=
    Option.isSome_iff_exists.mp (db.session?_isSome.mpr (hv.run_session row hrow))
  have hordered := hv.sessions_ordered _ (List.mem_of_find?_eq_some hsession)
  exact ⟨_, Tile.touchSession_within hsession hordered⟩

end Finalize

/-- Every session row decodes. -/
theorem sessionFromRow_ok (hv : db.Valid) {row : SessionRow} (hrow : row ∈ db.sessions) :
    ∃ record, sessionFromRow row = .ok record :=
  ⟨_, dif_pos (hv.sessions_ordered row hrow)⟩

end Database.Valid

/-! ## Programs that raise, programs that succeed -/

/-- A transaction whose body goes through publishes its work. -/
theorem immediateTransaction_of_ok {body : Sql α} {db working : Database} {a : α}
    (h : body (.within db db) = (.ok a, .within db working)) :
    immediateTransaction body (.idle db) = (.ok a, .idle working) := by
  have hbegin : beginImmediate (.idle db) = (.ok (), .within db db) := rfl
  have hcommit : commit (.within db working) = (.ok (), .idle working) := rfl
  rw [immediateTransaction, Effect.bind_of_ok hbegin,
    Effect.catching_of_ok ((Effect.bind_of_ok h _).trans (Effect.bind_of_ok hcommit _))]

/-- A value goes through the translation of errors. -/
theorem map_translate_of_ok {operation : StoreOperation} {m : Sql α} {f : α → β}
    {c c' : Connection} {a : α} (h : m c = (.ok a, c')) :
    (f <$> translateStoreErrors operation m) c = (.ok (f a), c') :=
  Effect.bind_of_ok (Effect.catching_of_ok h _) _

/-- A `mapM` whose items all go through does. -/
theorem mapM_of_forall_ok {ε : Type} {f : α → Except ε β} :
    ∀ {items : List α}, (∀ a ∈ items, ∃ b, f a = .ok b) → ∃ bs, items.mapM f = .ok bs
  | [], _ => ⟨[], rfl⟩
  | a :: rest, h => by
    obtain ⟨b, hb⟩ := h a (by simp)
    obtain ⟨bs, hbs⟩ := mapM_of_forall_ok fun x hx => h x (List.mem_cons_of_mem _ hx)
    exact ⟨b :: bs, by rw [List.mapM_cons, hb, hbs]; rfl⟩

section Parser

variable [JsonParser]

/-- A transaction whose body ended with a value. -/
theorem transaction_replies {call : Call} {ambient : Ambient} {operation : StoreOperation}
    {body : Sql α} {f : α → Reply} {db : Database} {a : α}
    (hmethod : call.method ambient
      = f <$> translateStoreErrors operation (immediateTransaction body))
    (h : ∃ working, body (.within db db) = (.ok a, .within db working)) :
    (call.run ambient.healthy db).1 = .ok (f a) := by
  obtain ⟨working, h⟩ := h
  rw [Call.run_healthy, hmethod]
  exact congrArg Prod.fst (map_translate_of_ok (immediateTransaction_of_ok h))

/-- A read that ended with a value. -/
theorem read_replies {call : Call} {ambient : Ambient} {operation : StoreOperation}
    {body : Sql α} {f : α → Reply} {db : Database} {c : Connection} {a : α}
    (hmethod : call.method ambient = f <$> translateStoreErrors operation body)
    (h : body (.idle db) = (.ok a, c)) : (call.run ambient.healthy db).1 = .ok (f a) := by
  rw [Call.run_healthy, hmethod]
  exact congrArg Prod.fst (map_translate_of_ok h)

/-- An operation that raised a domain error. -/
theorem read_raises {call : Call} {ambient : Ambient} {operation : StoreOperation}
    {body : Sql α} {f : α → Reply} {db : Database} {e : StoreError}
    (hmethod : call.method ambient = f <$> translateStoreErrors operation body)
    (h : (body (.idle db)).1 = .error (.store e)) :
    (call.run ambient.healthy db).1 = .error (.store e) := by
  rw [Call.run_healthy, hmethod]
  exact map_of_error (translateStoreErrors_of_store h)

/-- A transaction whose body raised a domain error. -/
theorem transaction_raises {call : Call} {ambient : Ambient} {operation : StoreOperation}
    {body : Sql α} {f : α → Reply} {db : Database} {e : StoreError} {c : Connection}
    (hmethod : call.method ambient
      = f <$> translateStoreErrors operation (immediateTransaction body))
    (h : body (.within db db) = (.error (.store e), c)) :
    (call.run ambient.healthy db).1 = .error (.store e) :=
  read_raises hmethod (immediateTransaction_of_error h)

/-- A history that decodes is read. -/
theorem historyForSession_of_history {sessionId : String} (c : Connection) (hc : c.faults = [])
    {items : List HistoryItem} (h : c.view.history sessionId = .ok items) :
    historyForSession sessionId c = (.ok items, c) := by
  rw [historyForSession, Effect.bind_of_ok (query_apply _ hc)]
  exact congrArg (·, c) h

/-! ## The operations on a well-formed database -/

/-- On a healthy backend the call raises its documented error, and replies when it has none. -/
inductive Call.EndsAsDocumented (call : Call) (ambient : Ambient) (db : Database) : Prop where
  | raises {e : StoreError} : call.documentedError db = some e →
      (call.run ambient.healthy db).1 = .error (.store e) → call.EndsAsDocumented ambient db
  | replies {reply : Reply} : call.documentedError db = none →
      (call.run ambient.healthy db).1 = .ok reply → call.EndsAsDocumented ambient db

/-- A call that ends as documented raises just the documented error. -/
theorem Call.EndsAsDocumented.error_iff {call : Call} {ambient : Ambient} {db : Database}
    (h : call.EndsAsDocumented ambient db) (e : PyError) :
    (call.run ambient.healthy db).1 = .error e ↔
      (call.documentedError db).map PyError.store = some e := by
  cases h with
  | raises hdocumented hrun => simp [hdocumented, hrun]
  | replies hdocumented hrun => simp [hdocumented, hrun]

namespace Database.Valid

variable {db : Database}

/-- A fork's copies go into a session that is still empty. -/
theorem admits_copiedRows (hv : db.Valid) {ambient : Ambient} (hfresh : ambient.Fresh db)
    {source target : String} (htarget : ¬ db.HasSession target) {items : List HistoryItem}
    (hitems : db.history source = .ok items) (row : SessionRow) (hrow : row.id = target) :
    ({ db with sessions := db.sessions ++ [row] } : Database).Admits
      (copiedRows ambient.uuid items target) := by
  have hrows : items.map HistoryItem.toRow = db.historyItems.filter (·.sessionId = source) :=
    (hv.history_eq_ok.mp hitems).2 ▸ hv.stored_toRow source
  have hmem : ∀ {r : HistoryRow}, r ∈ copiedRows ambient.uuid items target →
      ∃ k, r.id = ambient.uuid k ∧ r.sessionId = target ∧
        ∃ item ∈ items, r.runId = item.runId := by
    intro r hr
    obtain ⟨k, hk, rfl⟩ := List.mem_mapIdx.mp hr
    exact ⟨k, rfl, rfl, items[k], List.getElem_mem hk, rfl⟩
  have hids : (copiedRows ambient.uuid items target).map (·.id)
      = (List.range items.length).map ambient.uuid :=
    List.ext_getElem (by simp [copiedRows]) fun k h h' => by simp [copiedRows, historyValues]
  obtain ⟨n, hn⟩ := hv.positions source
  have hpositions : (copiedRows ambient.uuid items target).map (·.position) = List.range n := by
    rw [copiedRows_eq, List.map_map, ← hn, ← hrows, List.map_map]
    exact copiedItems_position _ _ _
  refine
    { ids := hids ▸ List.nodup_range.map hfresh.injective
      ids_new := ?ids_new
      positions := hpositions ▸ List.nodup_range
      positions_new := ?positions_new
      sessions := ?sessions
      runs := ?runs }
  case ids_new =>
    intro r hr old hold
    obtain ⟨k, hid, -⟩ := hmem hr
    exact hid ▸ hfresh.unused k old hold
  case positions_new =>
    intro r hr old hold hsession
    obtain ⟨k, -, hsession', -⟩ := hmem hr
    exact absurd (hsession' ▸ hsession ▸ hv.history_session old hold) htarget
  case sessions =>
    intro r hr
    obtain ⟨k, -, hsession, -⟩ := hmem hr
    exact ⟨row, by simp, hrow.trans hsession.symm⟩
  case runs =>
    intro r hr
    obtain ⟨k, -, -, item, hitem, hrun⟩ := hmem hr
    have hstored : item.toRow ∈ db.historyItems.filter (·.sessionId = source) :=
      hrows ▸ List.mem_map_of_mem hitem
    obtain ⟨run, hmemRun, hid, -⟩ := hv.history_run _ (List.mem_of_mem_filter hstored)
    exact ⟨run, hmemRun, hid.trans hrun.symm⟩

/-! ### Calls that succeed -/

/-- `create_session` on a free id succeeds. -/
theorem createSession_replies (ambient : Ambient) {sessionId : String}
    (h : ¬ db.HasSession sessionId) :
    ((Call.createSession sessionId).run ambient.healthy db).1
      = .ok (.session (newSessionRecord ambient.now sessionId)) := by
  have htransaction : immediateTransaction (do
      let record := newSessionRecord ambient.now sessionId
      Tile.insertSession record
      return record) (.idle db) = (.ok (newSessionRecord ambient.now sessionId), _) :=
    immediateTransaction_of_ok (Effect.bind_of_ok (insertSession_within _ h) _)
  rw [Call.run_healthy]
  exact congrArg Prod.fst (map_translate_of_ok (Effect.catching_of_ok htransaction _))

/-- `start_run` on an idle session with a legible history and a free id succeeds. -/
theorem startRun_replies (hv : db.Valid) (hlegible : db.Legible) (ambient : Ambient)
    {sessionId runId : String} (prompt model provider : String) (hsession : db.HasSession sessionId)
    (hactive : ¬ db.HasActiveRun sessionId) (hfree : ¬ db.HasRun runId) :
    ∃ started, ((Call.startRun sessionId runId prompt model provider).run ambient.healthy db).1
      = .ok (.started started) := by
  have hitems := hv.history_eq hlegible sessionId
  set record := newActiveRunRecord ambient.now runId sessionId prompt model provider with hrecord
  refine ⟨{ run := record, committedHistory := db.stored sessionId }, transaction_replies rfl ?_⟩
  rw [Effect.bind_of_ok (requireSession_of_hasSession (.within db db) rfl hsession),
    Effect.bind_of_ok (activeRunForSession_of_none (.within db db) rfl hactive),
    Effect.bind_of_ok (rfl : rejectActiveRun none (.within db db) = (.ok (), .within db db)),
    Effect.bind_of_ok (historyForSession_of_history (.within db db) rfl hitems)]
  exact ⟨_, Effect.bind_of_ok (insertRun_within record hfree hsession hactive) _⟩

/-- `finish_run` on an active run succeeds, for every delta. -/
theorem finishRun_replies (hv : db.Valid) {ambient : Ambient} (hfresh : ambient.Fresh db)
    {row : RunRow} (hrow : row ∈ db.runs) (hactive : row.status = .active) {outcome : RunOutcome}
    {outcomeJson : Json} (hdump : dumpOutcome outcome = some outcomeJson)
    (delta : List ConversationItem) :
    ((Call.finishRun row.sessionId row.id outcome delta).run ambient.healthy db).1
      = .ok (.finished (terminalRunRecord ambient.now row.activeRun outcome)) := by
  have hget := getRunRecord_of_some (.within db db) rfl (hv.run?_eq hrow)
  rw [runFromRow_of_active (hv.run_written row hrow) hactive] at hget
  obtain ⟨working, htouch⟩ := hv.touchSession_within ambient hrow outcome outcomeJson delta
  refine transaction_replies rfl ⟨working, ?_⟩
  rw [Effect.bind_of_ok hget]
  refine (Effect.bind_of_ok (finalizeActiveRun_within hrow hactive hdump) _).trans ?_
  refine (Effect.bind_of_ok (hv.insertHistoryDelta_within hfresh hrow delta) _).trans ?_
  exact Effect.bind_of_ok htouch _

/-- `abort_active_run` on a session that is there succeeds, with or without an active run. -/
theorem abortActiveRun_replies (hv : db.Valid) (ambient : Ambient) {sessionId : String}
    (hsession : db.HasSession sessionId) :
    (db.HasActiveRun sessionId → ∃ run,
      ((Call.abortActiveRun sessionId).run ambient.healthy db).1 = .ok (.aborted (some run))) ∧
    (¬ db.HasActiveRun sessionId →
      ((Call.abortActiveRun sessionId).run ambient.healthy db).1 = .ok (.aborted none)) := by
  have hrequire := requireSession_of_hasSession (.within db db) rfl hsession
  refine ⟨fun h => ?active, fun h => ?idle⟩
  case active =>
    obtain ⟨row, hfound⟩ := activeRun?_of_hasActiveRun h
    obtain ⟨hrow, -, hactive⟩ := db.activeRun?_eq_some hfound
    have hread := activeRunForSession_of_some (.within db db) rfl hfound (hv.run_written row hrow)
    obtain ⟨outcomeJson, hdump⟩ : ∃ j, dumpOutcome (.aborted .cancelled) = some j := ⟨_, rfl⟩
    obtain ⟨working, htouch⟩ :=
      hv.touchSession_within ambient hrow (.aborted .cancelled) outcomeJson []
    refine ⟨terminalRunRecord ambient.now row.activeRun (.aborted .cancelled),
      transaction_replies rfl ⟨working, ?_⟩⟩
    rw [Effect.bind_of_ok hrequire, Effect.bind_of_ok hread]
    refine (Effect.bind_of_ok (finalizeActiveRun_within hrow hactive hdump) _).trans ?_
    exact Effect.bind_of_ok htouch _
  case idle =>
    refine transaction_replies rfl ⟨db, ?_⟩
    rw [Effect.bind_of_ok hrequire,
      Effect.bind_of_ok (activeRunForSession_of_none (.within db db) rfl h)]
    rfl

/-- `fork_session` of a legible history to a free id succeeds. -/
theorem forkSession_replies (hv : db.Valid) (hlegible : db.Legible) {ambient : Ambient}
    (hfresh : ambient.Fresh db) {source target : String} (hsource : db.HasSession source)
    (htarget : ¬ db.HasSession target) :
    ((Call.forkSession source target).run ambient.healthy db).1
      = .ok (.session (newSessionRecord ambient.now target)) := by
  have hitems := hv.history_eq hlegible source
  set record := newSessionRecord ambient.now target with hrecord
  have hadmits := hv.admits_copiedRows hfresh htarget hitems (sessionValues record) rfl
  have hread := historyForSession_of_history
    (.within db { db with sessions := db.sessions ++ [sessionValues record] }) rfl hitems
  refine transaction_replies rfl ?_
  rw [Effect.bind_of_ok (requireSession_of_hasSession (.within db db) rfl hsource),
    Effect.bind_of_ok (rejectExistingSession_of_not_hasSession (.within db db) rfl htarget)]
  rw [Effect.bind_of_ok (insertSession_within record htarget), Effect.bind_of_ok hread]
  exact ⟨_, Effect.bind_of_ok (executeMany_insertHistory_within hadmits) _⟩

/-- In a legible database every run row decodes. -/
theorem runFromRow_ok (hv : db.Valid) (hlegible : db.Legible) {row : RunRow}
    (hrow : row ∈ db.runs) :
    ∃ record, runFromRow row = .ok record := by
  by_cases hactive : row.status = .active
  · exact ⟨_, runFromRow_of_active (hv.run_written row hrow) hactive⟩
  · obtain ⟨run, hrun⟩ :=
      RunRow.terminal_of_ended (hv.run_written row hrow) (hlegible.runs row hrow) hactive
    exact ⟨_, hrun⟩

/-! ### Calls end as documented -/

variable {ambient : Ambient}

/-- `create_session`: the id is free or taken. -/
theorem createSession_documented (sessionId : String) :
    (Call.createSession sessionId).EndsAsDocumented ambient db := by
  by_cases h : db.HasSession sessionId
  · refine .raises (if_pos h) (read_raises rfl ?_)
    have hinsert : Tile.insertSession (newSessionRecord ambient.now sessionId) (.within db db)
        = (.error (.backend (.sqlite .integrity)), .within db db) := execute_within_error (if_pos h)
    have htransaction : (immediateTransaction (do
        let record := newSessionRecord ambient.now sessionId
        Tile.insertSession record
        return record) (.idle db)).1 = .error (.backend (.sqlite .integrity)) :=
      immediateTransaction_of_error (Effect.bind_of_error hinsert _)
    rw [Effect.catching_of_error (Prod.ext htransaction rfl)]
    rfl
  · exact .replies (if_neg h) (createSession_replies ambient h)

/-- `start_run`: the checks in their order, and then the insertion goes through. -/
theorem startRun_documented (hv : db.Valid) (hlegible : db.Legible)
    (sessionId runId prompt model provider : String) :
    (Call.startRun sessionId runId prompt model provider).EndsAsDocumented ambient db := by
  by_cases hsession : db.HasSession sessionId
  case neg =>
    exact .raises (if_pos hsession) (transaction_raises rfl (Effect.bind_of_error
      (requireSession_of_not_hasSession (.within db db) rfl hsession) _))
  have hrequire := requireSession_of_hasSession (.within db db) rfl hsession
  by_cases hactive : db.HasActiveRun sessionId
  case pos =>
    obtain ⟨row, hfound⟩ := activeRun?_of_hasActiveRun hactive
    obtain ⟨hrow, rfl, -⟩ := db.activeRun?_eq_some hfound
    have hread := activeRunForSession_of_some (.within db db) rfl hfound (hv.run_written row hrow)
    refine .raises ((if_neg (not_not.mpr hsession)).trans (if_pos hactive))
      (transaction_raises rfl (c := .within db db) ?_)
    rw [Effect.bind_of_ok hrequire, Effect.bind_of_ok hread]
    rfl
  have hnone := activeRunForSession_of_none (.within db db) rfl hactive
  by_cases hfree : db.HasRun runId
  · have hitems := hv.history_eq hlegible sessionId
    refine .raises (((if_neg (not_not.mpr hsession)).trans (if_neg hactive)).trans (if_pos hfree))
      (transaction_raises rfl (c := .within db db) ?_)
    rw [Effect.bind_of_ok hrequire, Effect.bind_of_ok hnone,
      Effect.bind_of_ok (rfl : rejectActiveRun none (.within db db) = (.ok (), .within db db)),
      Effect.bind_of_ok (historyForSession_of_history (.within db db) rfl hitems)]
    exact Effect.bind_of_error (insertRun_within_of_hasRun hfree) _
  · obtain ⟨started, hstarted⟩ :=
      hv.startRun_replies hlegible ambient prompt model provider hsession hactive hfree
    exact .replies (((if_neg (not_not.mpr hsession)).trans (if_neg hactive)).trans (if_neg hfree))
      hstarted

/-- `finish_run`: the run is missing, terminal or active. -/
theorem finishRun_documented (hv : db.Valid) (hlegible : db.Legible) (hfresh : ambient.Fresh db)
    (sessionId runId : String) {outcome : RunOutcome} {outcomeJson : Json}
    (hdump : dumpOutcome outcome = some outcomeJson) (delta : List ConversationItem) :
    (Call.finishRun sessionId runId outcome delta).EndsAsDocumented ambient db := by
  by_cases howns : db.OwnsRun sessionId runId
  case neg =>
    have hnone : db.run? sessionId runId = none :=
      db.run?_eq_none.mpr fun row hrow hsession hid => howns ⟨row, hrow, hsession, hid⟩
    exact .raises (if_pos howns)
      (congrArg Prod.fst (finishRun_raises_of_none hnone outcome delta ambient).healthy)
  obtain ⟨row, hrow, rfl, rfl⟩ := howns
  have howns : db.OwnsRun row.sessionId row.id := ⟨row, hrow, rfl, rfl⟩
  by_cases hactive : row.status = .active
  · have hended : ¬ db.Ended row.id := fun h => hv.not_active_of_ended h ⟨row, hrow, rfl, hactive⟩
    exact .replies ((if_neg (not_not.mpr howns)).trans (if_neg hended))
      (hv.finishRun_replies hfresh hrow hactive hdump delta)
  · obtain ⟨run, hrun⟩ :=
      RunRow.terminal_of_ended (hv.run_written row hrow) (hlegible.runs row hrow) hactive
    exact .raises ((if_neg (not_not.mpr howns)).trans (if_pos ⟨row, hrow, rfl, hactive⟩))
      (congrArg Prod.fst
        (finishRun_raises_of_terminal (hv.run?_eq hrow) hrun outcome delta ambient).healthy)

/-- `abort_active_run`: the session is missing or there. -/
theorem abortActiveRun_documented (hv : db.Valid) (sessionId : String) :
    (Call.abortActiveRun sessionId).EndsAsDocumented ambient db := by
  by_cases hsession : db.HasSession sessionId
  · obtain ⟨hsome, hnone⟩ := hv.abortActiveRun_replies ambient hsession
    by_cases hactive : db.HasActiveRun sessionId
    · obtain ⟨run, hrun⟩ := hsome hactive
      exact .replies (if_neg (not_not.mpr hsession)) hrun
    · exact .replies (if_neg (not_not.mpr hsession)) (hnone hactive)
  · exact .raises (if_pos hsession) (transaction_raises rfl (Effect.bind_of_error
      (requireSession_of_not_hasSession (.within db db) rfl hsession) _))

/-- `fork_session`: the checks in their order, and then the copy goes through. -/
theorem forkSession_documented (hv : db.Valid) (hlegible : db.Legible)
    (hfresh : ambient.Fresh db) (source target : String) :
    (Call.forkSession source target).EndsAsDocumented ambient db := by
  by_cases hsource : db.HasSession source
  case neg =>
    exact .raises (if_pos hsource) (transaction_raises rfl (Effect.bind_of_error
      (requireSession_of_not_hasSession (.within db db) rfl hsource) _))
  by_cases htarget : db.HasSession target
  · refine .raises ((if_neg (not_not.mpr hsource)).trans (if_pos htarget))
      (transaction_raises rfl (c := .within db db) ?_)
    rw [Effect.bind_of_ok (requireSession_of_hasSession (.within db db) rfl hsource)]
    exact Effect.bind_of_error
      (rejectExistingSession_of_hasSession (.within db db) rfl htarget) _
  · exact .replies ((if_neg (not_not.mpr hsource)).trans (if_neg htarget))
      (hv.forkSession_replies hlegible hfresh hsource htarget)

/-- A read of a session's data: the session is looked up first, and its rows decode. -/
theorem getSession_documented (hv : db.Valid) (sessionId : String) :
    (Call.getSession sessionId).EndsAsDocumented ambient db := by
  by_cases hsession : db.HasSession sessionId
  · obtain ⟨row, hrow⟩ := Option.isSome_iff_exists.mp (db.session?_isSome.mpr hsession)
    obtain ⟨record, hrecord⟩ := hv.sessionFromRow_ok (List.mem_of_find?_eq_some hrow)
    refine .replies (if_neg (not_not.mpr hsession))
      (read_replies (a := record) (c := .idle db) rfl ?_)
    rw [getSessionRecord, Effect.bind_of_ok (query_apply _ rfl)]
    simp only [Connection.view, Option.getD_none, hrow]
    exact congrArg (·, Connection.idle db) hrecord
  · refine .raises (if_pos hsession) (read_raises rfl ?_)
    rw [getSessionRecord, Effect.bind_of_ok (query_apply _ rfl)]
    simp only [Connection.view, Option.getD_none, db.session?_eq_none.mpr hsession]
    rfl

/-- `list_sessions` raises nothing. -/
theorem listSessions_documented (hv : db.Valid) :
    Call.listSessions.EndsAsDocumented ambient db := by
  obtain ⟨records, hrecords⟩ : ∃ records, db.sessionRows.mapM sessionFromRow = .ok records :=
    mapM_of_forall_ok fun row hrow => hv.sessionFromRow_ok (List.mem_mergeSort.mp hrow)
  refine .replies rfl (read_replies (a := records) (c := .idle db) rfl ?_)
  rw [Effect.bind_of_ok (query_apply _ rfl)]
  exact congrArg (·, Connection.idle db) hrecords

/-- `get_history`: the session is missing or there. -/
theorem getHistory_documented (hv : db.Valid) (hlegible : db.Legible) (sessionId : String) :
    (Call.getHistory sessionId).EndsAsDocumented ambient db := by
  by_cases hsession : db.HasSession sessionId
  · exact .replies (if_neg (not_not.mpr hsession)) (congrArg Prod.fst
      (getHistory_healthy ambient hsession (hv.history_eq hlegible sessionId)))
  · exact .raises (if_pos hsession) (read_raises rfl (congrArg Prod.fst (Effect.bind_of_error
      (requireSession_of_not_hasSession (.idle db) rfl hsession) _)))

/-- `get_run`: the run is missing or there. -/
theorem getRun_documented (hv : db.Valid) (hlegible : db.Legible) (sessionId runId : String) :
    (Call.getRun sessionId runId).EndsAsDocumented ambient db := by
  by_cases howns : db.OwnsRun sessionId runId
  · obtain ⟨row, hrow, rfl, rfl⟩ := howns
    obtain ⟨record, hrecord⟩ := hv.runFromRow_ok hlegible hrow
    refine .replies (if_neg (not_not.mpr ⟨row, hrow, rfl, rfl⟩))
      (read_replies (a := record) (c := .idle db) rfl ?_)
    rw [getRunRecord_of_some (.idle db) rfl (hv.run?_eq hrow), hrecord]
  · have hnone : db.run? sessionId runId = none :=
      db.run?_eq_none.mpr fun row hrow hsession hid => howns ⟨row, hrow, hsession, hid⟩
    exact .raises (if_pos howns) (congrArg Prod.fst (getRun_raises_of_none hnone ambient).healthy)

/-- `list_runs`: the session is missing or there. -/
theorem listRuns_documented (hv : db.Valid) (hlegible : db.Legible) (sessionId : String) :
    (Call.listRuns sessionId).EndsAsDocumented ambient db := by
  by_cases hsession : db.HasSession sessionId
  · obtain ⟨records, hrecords⟩ : ∃ records, (db.runRows sessionId).mapM runFromRow = .ok records :=
      mapM_of_forall_ok fun row hrow =>
        hv.runFromRow_ok hlegible (List.mem_of_mem_filter (List.mem_mergeSort.mp hrow))
    refine .replies (if_neg (not_not.mpr hsession))
      (read_replies (a := records) (c := .idle db) rfl ?_)
    rw [Effect.bind_of_ok (requireSession_of_hasSession (.idle db) rfl hsession),
      Effect.bind_of_ok (query_apply _ rfl)]
    exact congrArg (·, Connection.idle db) hrecords
  · exact .raises (if_pos hsession) (read_raises rfl (congrArg Prod.fst (Effect.bind_of_error
      (requireSession_of_not_hasSession (.idle db) rfl hsession) _)))

/-- **A call on a well-formed and legible database ends as documented.** -/
theorem endsAsDocumented (hv : db.Valid) (hlegible : db.Legible) (hfresh : ambient.Fresh db)
    {call : Call} (hserializes : call.Serializes) : call.EndsAsDocumented ambient db := by
  cases call with
  | createSession sessionId => exact createSession_documented sessionId
  | getSession sessionId => exact hv.getSession_documented sessionId
  | listSessions => exact hv.listSessions_documented
  | startRun sessionId runId prompt model provider =>
    exact hv.startRun_documented hlegible sessionId runId prompt model provider
  | finishRun sessionId runId outcome delta =>
    obtain ⟨outcomeJson, hdump⟩ := hserializes
    exact hv.finishRun_documented hlegible hfresh sessionId runId hdump delta
  | abortActiveRun sessionId => exact hv.abortActiveRun_documented sessionId
  | getHistory sessionId => exact hv.getHistory_documented hlegible sessionId
  | getRun sessionId runId => exact hv.getRun_documented hlegible sessionId runId
  | listRuns sessionId => exact hv.listRuns_documented hlegible sessionId
  | forkSession source target => exact hv.forkSession_documented hlegible hfresh source target

end Database.Valid

end Parser

/-- Ids no two of which are equal. -/
def tally (k : Nat) : String := String.ofList (List.replicate k '|')

/-- Tallies are new to a database whose history rows are all named otherwise. -/
theorem tally_fresh {db : Database} (hids : ∀ row ∈ db.historyItems, row.id = "h")
    (now : Timestamp) : (⟨now, tally, []⟩ : Ambient).Fresh db := by
  have hchars : ∀ k, (tally k).toList = List.replicate k '|' := fun k => String.toList_ofList
  refine ⟨fun j k h => ?_, fun k row hrow hid => ?_⟩
  · have hlength := congrArg (List.length ∘ String.toList) h
    simpa [hchars] using hlength
  have hmem : 'h' ∈ List.replicate k '|' := by
    have hid' : tally k = "h" := hid.symm.trans (hids row hrow)
    rw [← hchars, hid']
    decide
  exact absurd (List.eq_of_mem_replicate hmem) (by decide)

end Tile
