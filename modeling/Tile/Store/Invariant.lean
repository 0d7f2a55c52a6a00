import Mathlib.Data.List.Nodup
import Mathlib.Data.List.Range
import Tile.Store.Change

/-!
# Store/Invariant — every reachable database is well formed

`Database.Valid` collects what the schema and the operations keep between them: unique ids, rows as
the store writes them, at most one active run per session, and history positions `0, 1, …` without a
gap in every session.  **A call keeps it** (`Database.Valid.run`).  That the rows can be read back
is a second invariant, `Database.Legible`: a call keeps it **if the parser reads what it was given
to store** (`Database.Legible.change`).
-/

namespace Tile

/-! ## The invariant -/

/-- What every reachable database satisfies. -/
structure Database.Valid (db : Database) : Prop where
  sessions_nodup : (db.sessions.map (·.id)).Nodup
  sessions_ordered : ∀ row ∈ db.sessions, row.createdAt ≤ row.updatedAt
  runs_nodup : (db.runs.map (·.id)).Nodup
  run_written : ∀ row ∈ db.runs, row.Written
  run_session : ∀ row ∈ db.runs, db.HasSession row.sessionId
  one_active : ∀ row ∈ db.runs, ∀ row' ∈ db.runs, row.status = .active → row'.status = .active →
    row.sessionId = row'.sessionId → row = row'
  history_written : ∃ items : List HistoryItem, db.historyItems = items.map HistoryItem.toRow
  history_run : ∀ row ∈ db.historyItems, ∃ run ∈ db.runs, run.id = row.runId ∧ run.status ≠ .active
  history_session : ∀ row ∈ db.historyItems, db.HasSession row.sessionId
  positions : ∀ sessionId, ∃ n,
    (db.historyItems.filter (·.sessionId = sessionId)).map (·.position) = List.range n

theorem Database.Valid.empty : Database.Valid {} where
  sessions_nodup := by simp
  sessions_ordered := by simp
  runs_nodup := by simp
  run_written := by simp
  run_session := by simp
  one_active := by simp
  history_written := ⟨[], rfl⟩
  history_run := by simp
  history_session := by simp
  positions := fun _ => ⟨0, rfl⟩

namespace Database.Valid

variable {db : Database}

/-- Ids name rows. -/
theorem run_unique (hv : db.Valid) {row row' : RunRow} (h : row ∈ db.runs) (h' : row' ∈ db.runs)
    (hid : row.id = row'.id) : row = row' :=
  List.inj_on_of_nodup_map hv.runs_nodup h h' hid

theorem run?_eq (hv : db.Valid) {row : RunRow} (h : row ∈ db.runs) :
    db.run? row.sessionId row.id = some row := by
  cases hfound : db.run? row.sessionId row.id with
  | none => exact absurd rfl (db.run?_eq_none.mp hfound row h rfl)
  | some row' =>
    obtain ⟨hmem, -, hid⟩ := db.run?_eq_some hfound
    rw [hv.run_unique hmem h hid]

/-! ## History -/

/-- The rows of a session are already in position order. -/
theorem historyRows_eq (hv : db.Valid) (sessionId : String) :
    db.historyRows sessionId = db.historyItems.filter (·.sessionId = sessionId) := by
  obtain ⟨n, hn⟩ := hv.positions sessionId
  refine List.mergeSort_of_pairwise ?_
  have hlt : ((db.historyItems.filter (·.sessionId = sessionId)).map (·.position)).Pairwise
      (· < ·) := hn ▸ List.pairwise_lt_range
  exact (List.pairwise_map.mp hlt).imp fun h => by simpa using Nat.le_of_lt h

theorem nextPosition_eq (hv : db.Valid) (sessionId : String) :
    db.nextPosition sessionId = (db.historyItems.filter (·.sessionId = sessionId)).length := by
  obtain ⟨n, hn⟩ := hv.positions sessionId
  have hlength := congrArg List.length hn
  simp only [List.length_map, List.length_range] at hlength
  rw [hlength, Database.nextPosition, hn]
  cases n with
  | zero => rfl
  | succ n =>
    have hmax : (List.range (n + 1)).max? = some n := by
      rw [List.max?_eq_some_iff]
      exact ⟨by simp, fun m hm => Nat.le_of_lt_succ (List.mem_range.mp hm)⟩
    rw [hmax]

end Database.Valid

/-! ### What the rows store, whether or not the parser reads it -/

/-- The envelope a row stores. -/
def HistoryRow.stored? (row : HistoryRow) : Option HistoryItem :=
  (itemOfJson? row.payloadJson).map fun item =>
    { id := row.id, sessionId := row.sessionId, runId := row.runId, position := row.position
      item, createdAt := row.createdAt }

@[simp] theorem HistoryRow.stored?_toRow (item : HistoryItem) : item.toRow.stored? = some item := by
  rw [stored?, HistoryItem.toRow, historyValues, itemOfJson_itemToJson]
  rfl

/-- The envelopes the rows of a session store. -/
def Database.stored (db : Database) (sessionId : String) : List HistoryItem :=
  (db.historyRows sessionId).filterMap HistoryRow.stored?

theorem filterMap_stored? (items : List HistoryItem) :
    (items.map HistoryItem.toRow).filterMap HistoryRow.stored? = items := by
  rw [List.filterMap_map]
  exact (List.filterMap_congr fun item _ => HistoryRow.stored?_toRow item).trans List.filterMap_some

theorem Database.Valid.stored_toRow {db : Database} (hv : db.Valid) (sessionId : String) :
    (db.stored sessionId).map HistoryItem.toRow
      = db.historyItems.filter (·.sessionId = sessionId) := by
  obtain ⟨items, hitems⟩ := hv.history_written
  rw [Database.stored, hv.historyRows_eq, hitems, List.filter_map, filterMap_stored?]

/-- The items a session stores, off the rows as they lie in the table. -/
theorem Database.Valid.stored_items {db : Database} (hv : db.Valid) (sessionId : String) :
    (db.stored sessionId).map (·.item) = (db.historyItems.filter
      (·.sessionId = sessionId)).filterMap fun row => itemOfJson? row.payloadJson := by
  rw [← hv.stored_toRow, List.filterMap_map, ← List.filterMap_eq_map]
  exact List.filterMap_congr fun item _ => (itemOfJson_itemToJson item.item).symm

section Reading

variable [JsonParser]

theorem mapM_historyFromRow : ∀ {items items' : List HistoryItem},
    (items.map HistoryItem.toRow).mapM historyFromRow = .ok items' ↔
      (∀ item ∈ items, item.item.Legible) ∧ items' = items
  | [], items' => by
    rw [List.map_nil, List.mapM_nil]
    exact ⟨fun h => ⟨by simp, (Except.ok.inj h).symm⟩, fun h => congrArg _ h.2.symm⟩
  | item :: rest, items' => by
    rw [List.map_cons, List.mapM_cons, except_bind_eq_ok]
    constructor
    · rintro ⟨first, hfirst, hbind⟩
      obtain ⟨others, hothers, hpure⟩ := except_bind_eq_ok.mp hbind
      obtain ⟨hlegible, hfirst⟩ := historyFromRow_toRow.mp hfirst
      obtain ⟨hrest, hothers⟩ := mapM_historyFromRow.mp hothers
      exact ⟨List.forall_mem_cons.mpr ⟨hlegible, hrest⟩,
        hfirst ▸ hothers ▸ (Except.ok.inj hpure).symm⟩
    · rintro ⟨hall, rfl⟩
      obtain ⟨hlegible, hrest⟩ := List.forall_mem_cons.mp hall
      exact ⟨item, historyFromRow_toRow.mpr ⟨hlegible, rfl⟩,
        except_bind_eq_ok.mpr ⟨rest, mapM_historyFromRow.mpr ⟨hrest, rfl⟩, rfl⟩⟩

/-- **The history of a session is what its rows store**, if the parser reads all of it. -/
theorem Database.Valid.history_eq_ok {db : Database} (hv : db.Valid) {sessionId : String}
    {items : List HistoryItem} : db.history sessionId = .ok items ↔
      (∀ item ∈ db.stored sessionId, item.item.Legible) ∧ items = db.stored sessionId := by
  rw [Database.history, hv.historyRows_eq, ← hv.stored_toRow, mapM_historyFromRow]

end Reading

/-! ## Rows a write leaves -/

namespace Database

variable {status : RunStatus} {endedAt : Timestamp} {outcomeJson : Json} {runId sessionId : String}

@[simp] theorem finishedRow_id (row : RunRow) :
    (finishedRow status endedAt outcomeJson runId sessionId row).id = row.id := by
  unfold finishedRow
  split <;> rfl

@[simp] theorem finishedRow_base (row : RunRow) :
    (finishedRow status endedAt outcomeJson runId sessionId row).base = row.base := by
  unfold finishedRow
  split <;> rfl

@[simp] theorem finishedRow_sessionId (row : RunRow) :
    (finishedRow status endedAt outcomeJson runId sessionId row).sessionId = row.sessionId :=
  congrArg RunBase.sessionId (finishedRow_base row)

/-- A terminal row is left alone. -/
theorem finishedRow_of_ended {row : RunRow} (h : row.status ≠ .active) :
    finishedRow status endedAt outcomeJson runId sessionId row = row :=
  if_neg fun hmatch => h hmatch.2.2

theorem finishedRow_of_ne {row : RunRow} (h : row.id ≠ runId) :
    finishedRow status endedAt outcomeJson runId sessionId row = row :=
  if_neg fun hmatch => h hmatch.1

/-- A row that is still active was not the one to finish. -/
theorem finishedRow_of_active {row : RunRow} (hstatus : status ≠ .active)
    (h : (finishedRow status endedAt outcomeJson runId sessionId row).status = .active) :
    finishedRow status endedAt outcomeJson runId sessionId row = row := by
  unfold finishedRow at h ⊢
  split at h
  · exact absurd h hstatus
  · next hmatch => exact if_neg hmatch

theorem finishedRow_of_match (status : RunStatus) (endedAt : Timestamp) (outcomeJson : Json)
    {row : RunRow} (hactive : row.status = .active) :
    finishedRow status endedAt outcomeJson row.id row.sessionId row
      = { row with status := status, endedAt := some endedAt, outcomeJson := some outcomeJson } :=
  if_pos ⟨rfl, rfl, hactive⟩

@[simp] theorem hasSession_touchSession {updatedAt : Timestamp} {db : Database} {s : String} :
    (db.touchSession updatedAt sessionId).HasSession s ↔ db.HasSession s := by
  simp only [HasSession, touchSession, List.mem_map]
  constructor
  · rintro ⟨_, ⟨row, hrow, rfl⟩, hid⟩
    exact ⟨row, hrow, by split at hid <;> exact hid⟩
  · rintro ⟨row, hrow, hid⟩
    exact ⟨_, ⟨row, hrow, rfl⟩, by split <;> exact hid⟩

end Database

/-- The envelopes of one run's delta. -/
def deltaItems (uuid : Nat → String) (run : TerminalRun) (firstPosition : Nat)
    (items : List ConversationItem) : List HistoryItem :=
  items.mapIdx fun offset item =>
    { id := uuid offset, sessionId := run.sessionId, runId := run.id,
      position := firstPosition + offset, item, createdAt := run.endedAt }

/-- The envelopes of a fork. -/
def copiedItems (uuid : Nat → String) (items : List HistoryItem) (targetSessionId : String) :
    List HistoryItem :=
  items.mapIdx fun k item => { item with id := uuid k, sessionId := targetSessionId }

theorem deltaRows_eq (uuid : Nat → String) (run : TerminalRun) (firstPosition : Nat)
    (items : List ConversationItem) :
    deltaRows uuid run firstPosition items
      = (deltaItems uuid run firstPosition items).map HistoryItem.toRow := by
  refine List.ext_getElem (by simp [deltaRows, deltaItems]) fun k h h' => ?_
  simp [deltaRows, deltaItems, HistoryItem.toRow]

theorem copiedRows_eq (uuid : Nat → String) (items : List HistoryItem) (targetSessionId : String) :
    copiedRows uuid items targetSessionId
      = (copiedItems uuid items targetSessionId).map HistoryItem.toRow := by
  refine List.ext_getElem (by simp [copiedRows, copiedItems]) fun k h h' => ?_
  simp [copiedRows, copiedItems, HistoryItem.toRow]

theorem deltaItems_position (uuid : Nat → String) (run : TerminalRun) (firstPosition : Nat)
    (items : List ConversationItem) :
    (deltaItems uuid run firstPosition items).map (·.position)
      = List.range' firstPosition items.length := by
  refine List.ext_getElem (by simp [deltaItems]) fun k h h' => ?_
  simp [deltaItems]

theorem copiedItems_position (uuid : Nat → String) (items : List HistoryItem)
    (targetSessionId : String) :
    (copiedItems uuid items targetSessionId).map (·.position) = items.map (·.position) := by
  refine List.ext_getElem (by simp [copiedItems]) fun k h h' => ?_
  simp [copiedItems]

theorem of_mem_deltaItems {uuid : Nat → String} {run : TerminalRun} {firstPosition : Nat}
    {items : List ConversationItem} {item : HistoryItem}
    (h : item ∈ deltaItems uuid run firstPosition items) :
    item.sessionId = run.sessionId ∧ item.runId = run.id ∧ item.createdAt = run.endedAt := by
  obtain ⟨k, hk, rfl⟩ := List.mem_mapIdx.mp h
  exact ⟨rfl, rfl, rfl⟩

theorem of_mem_copiedItems {uuid : Nat → String} {items : List HistoryItem}
    {targetSessionId : String} {item : HistoryItem}
    (h : item ∈ copiedItems uuid items targetSessionId) :
    item.sessionId = targetSessionId ∧ ∃ old ∈ items, item.runId = old.runId := by
  obtain ⟨k, hk, rfl⟩ := List.mem_mapIdx.mp h
  exact ⟨rfl, items[k], List.getElem_mem hk, rfl⟩

/-! ## The calls keep the invariant -/

namespace Database.Valid

variable {db : Database}

theorem session_eq (hv : db.Valid) {sessionId : String} {row found : SessionRow}
    (hrow : row ∈ db.sessions) (hid : row.id = sessionId)
    (hfound : db.session? sessionId = some found) : row = found := by
  have hmem := List.mem_of_find?_eq_some hfound
  have hfoundId : found.id = sessionId := by simpa using List.find?_some hfound
  exact List.inj_on_of_nodup_map hv.sessions_nodup hrow hmem (hid.trans hfoundId.symm)

theorem created (hv : db.Valid) {sessionId : String} (hnew : ¬ db.HasSession sessionId)
    (now : Timestamp) :
    ({ db with sessions := db.sessions ++ [⟨sessionId, now, now⟩] } : Database).Valid where
  sessions_nodup := by
    rw [List.map_append, List.nodup_append]
    refine ⟨hv.sessions_nodup, by simp, ?_⟩
    rintro _ hold _ hid rfl
    obtain ⟨row, hrow, hid'⟩ := List.mem_map.mp hold
    exact hnew ⟨row, hrow, hid'.trans (by simpa using hid)⟩
  sessions_ordered := by
    simpa [or_imp, forall_and] using hv.sessions_ordered
  runs_nodup := hv.runs_nodup
  run_written := hv.run_written
  run_session := fun row hrow =>
    let ⟨s, hs, hid⟩ := hv.run_session row hrow
    ⟨s, List.mem_append_left _ hs, hid⟩
  one_active := hv.one_active
  history_written := hv.history_written
  history_run := hv.history_run
  history_session := fun row hrow =>
    let ⟨s, hs, hid⟩ := hv.history_session row hrow
    ⟨s, List.mem_append_left _ hs, hid⟩
  positions := hv.positions

theorem started (hv : db.Valid) {sessionId : String} (hsession : db.HasSession sessionId)
    (hactive : ¬ db.HasActiveRun sessionId) {record : ActiveRun} (hfree : ¬ db.HasRun record.id)
    (hid : record.sessionId = sessionId) :
    ({ db with runs := db.runs ++ [runValues record] } : Database).Valid where
  sessions_nodup := hv.sessions_nodup
  sessions_ordered := hv.sessions_ordered
  runs_nodup := by
    rw [List.map_append, List.nodup_append]
    refine ⟨hv.runs_nodup, by simp, ?_⟩
    rintro _ hold _ hid rfl
    obtain ⟨row, hrow, hid'⟩ := List.mem_map.mp hold
    exact hfree ⟨row, hrow, hid'.trans (by simpa [runValues] using hid)⟩
  run_written := by
    intro row hrow
    rcases List.mem_append.mp hrow with hrow | hrow
    · exact hv.run_written row hrow
    · obtain rfl := List.mem_singleton.mp hrow
      exact .inl ⟨rfl, rfl, rfl⟩
  run_session := by
    intro row hrow
    rcases List.mem_append.mp hrow with hrow | hrow
    · exact hv.run_session row hrow
    · obtain rfl := List.mem_singleton.mp hrow
      obtain rfl := hid
      exact hsession
  one_active := by
    have hother : ∀ row ∈ db.runs, row.status = .active → row.sessionId ≠ sessionId :=
      fun row hrow hstatus hsame => hactive ⟨row, hrow, hsame, hstatus⟩
    intro row hrow row' hrow' hstatus hstatus' hsame
    rcases List.mem_append.mp hrow with hrow | hrow <;>
      rcases List.mem_append.mp hrow' with hrow' | hrow'
    · exact hv.one_active row hrow row' hrow' hstatus hstatus' hsame
    · obtain rfl := List.mem_singleton.mp hrow'
      exact absurd (hsame.trans hid) (hother row hrow hstatus)
    · obtain rfl := List.mem_singleton.mp hrow
      exact absurd (hsame.symm.trans hid) (hother row' hrow' hstatus')
    · exact (List.mem_singleton.mp hrow).trans (List.mem_singleton.mp hrow').symm
  history_written := hv.history_written
  history_run := fun row hrow =>
    let ⟨run, hrun, hended⟩ := hv.history_run row hrow
    ⟨run, List.mem_append_left _ hrun, hended⟩
  history_session := hv.history_session
  positions := hv.positions

/-- The history positions of a database extended by consecutive rows of one session. -/
theorem positions_append (hv : db.Valid) (sessionId : String) {rows : List HistoryRow}
    (hrows : ∀ row ∈ rows, row.sessionId = sessionId) {k : Nat}
    (hpositions : rows.map (·.position) = List.range' (db.nextPosition sessionId) k) (s : String) :
    ∃ n, ((db.historyItems ++ rows).filter (·.sessionId = s)).map (·.position) = List.range n := by
  obtain ⟨n, hn⟩ := hv.positions s
  rw [List.filter_append]
  by_cases hs : sessionId = s
  · subst hs
    have hall : rows.filter (·.sessionId = sessionId) = rows :=
      List.filter_eq_self.mpr fun row hrow => by simpa using hrows row hrow
    have hlength : (db.historyItems.filter (·.sessionId = sessionId)).length = n := by
      simpa using congrArg List.length hn
    refine ⟨n + k, ?_⟩
    rw [hall, List.map_append, hn, hpositions, hv.nextPosition_eq, hlength, List.range_eq_range',
      List.range_eq_range']
    simpa using @List.range'_append 0 n k 1
  · have hnone : rows.filter (·.sessionId = s) = [] :=
      List.filter_eq_nil_iff.mpr fun row hrow => by simpa [hrows row hrow] using hs
    exact ⟨n, by rw [hnone, List.append_nil, hn]⟩

/-- A later time of the last change of a session. -/
theorem touched (hv : db.Valid) {sessionId : String} {sessionRow : SessionRow}
    (hsession : db.session? sessionId = some sessionRow) {updatedAt : Timestamp}
    (hle : sessionRow.updatedAt ≤ updatedAt) : (db.touchSession updatedAt sessionId).Valid where
  sessions_nodup := by
    have hids : (db.touchSession updatedAt sessionId).sessions.map (·.id)
        = db.sessions.map (·.id) := by
      simp only [Database.touchSession, List.map_map]
      refine List.map_congr_left fun s _ => ?_
      simp only [Function.comp_apply]
      split <;> rfl
    rw [hids]
    exact hv.sessions_nodup
  sessions_ordered := by
    intro s hs
    obtain ⟨s', hs', rfl⟩ := List.mem_map.mp hs
    split
    · next hsame =>
      obtain rfl := hv.session_eq hs' hsame hsession
      exact (hv.sessions_ordered _ hs').trans hle
    · exact hv.sessions_ordered s' hs'
  runs_nodup := hv.runs_nodup
  run_written := hv.run_written
  run_session row hrow := Database.hasSession_touchSession.mpr (hv.run_session row hrow)
  one_active := hv.one_active
  history_written := hv.history_written
  history_run := hv.history_run
  history_session row hrow := Database.hasSession_touchSession.mpr (hv.history_session row hrow)
  positions := hv.positions

/-- The terminal update of an active run. -/
theorem ended (hv : db.Valid) {row : RunRow} (hrow : row ∈ db.runs)
    (hactive : row.status = .active) {outcome : RunOutcome} {outcomeJson : Json}
    (hdump : dumpOutcome outcome = some outcomeJson) (now : Timestamp) :
    ({ db with
        runs := finishedRuns (terminalRunRecord now row.activeRun outcome) outcomeJson db.runs
        } : Database).Valid := by
  set record := terminalRunRecord now row.activeRun outcome with hrecord
  have hid : record.id = row.id := rfl
  have hsid : record.sessionId = row.sessionId := rfl
  have hstatus : record.status ≠ .active := terminalStatusFor_ne_active outcome
  set finished : RunRow → RunRow := Database.finishedRow record.status record.endedAt outcomeJson
    record.id record.sessionId with hfinished
  have hruns : finishedRuns record outcomeJson db.runs = db.runs.map finished := rfl
  rw [hruns]
  refine
    { hv with
      runs_nodup := ?runs_nodup, run_written := ?run_written
      run_session := ?run_session, one_active := ?one_active, history_run := ?history_run }
  case runs_nodup =>
    rw [List.map_map]
    have hids : (fun run : RunRow => run.id) ∘ finished = fun run : RunRow => run.id :=
      funext fun run => Database.finishedRow_id run
    rw [hids]
    exact hv.runs_nodup
  case run_written =>
    intro _ hmem
    obtain ⟨old, hold, rfl⟩ := List.mem_map.mp hmem
    by_cases hsame : old.id = row.id
    · obtain rfl := hv.run_unique hold hrow hsame
      rw [hfinished, hid, hsid, Database.finishedRow_of_match _ _ _ hactive]
      exact .inr ⟨_, _, outcome, rfl, rfl, hdump, rfl, record.ordered⟩
    · rw [hfinished, Database.finishedRow_of_ne (hid ▸ hsame)]
      exact hv.run_written old hold
  case run_session =>
    intro _ hmem
    obtain ⟨old, hold, rfl⟩ := List.mem_map.mp hmem
    rw [hfinished, Database.finishedRow_sessionId]
    exact hv.run_session old hold
  case one_active =>
    intro _ hmem _ hmem' hstatus₁ hstatus₂ hsame
    obtain ⟨old, hold, rfl⟩ := List.mem_map.mp hmem
    obtain ⟨old', hold', rfl⟩ := List.mem_map.mp hmem'
    have h₁ : finished old = old := Database.finishedRow_of_active hstatus hstatus₁
    have h₂ : finished old' = old' := Database.finishedRow_of_active hstatus hstatus₂
    rw [h₁] at hstatus₁ hsame ⊢
    rw [h₂] at hstatus₂ hsame ⊢
    exact hv.one_active old hold old' hold' hstatus₁ hstatus₂ hsame
  case history_run =>
    intro item hitem
    obtain ⟨run, hrun, hrunId, hended⟩ := hv.history_run item hitem
    refine ⟨finished run, List.mem_map_of_mem hrun, ?_⟩
    rw [hfinished, Database.finishedRow_of_ended hended]
    exact ⟨hrunId, hended⟩

/-- More history of one session, at its next positions and of runs that have ended. -/
theorem extended (hv : db.Valid) {sessionId : String} (hsession : db.HasSession sessionId)
    {items : List HistoryItem}
    (hitems : ∀ item ∈ items, item.sessionId = sessionId ∧
      ∃ run ∈ db.runs, run.id = item.runId ∧ run.status ≠ .active) {k : Nat}
    (hpositions : items.map (·.position) = List.range' (db.nextPosition sessionId) k) :
    ({ db with historyItems := db.historyItems ++ items.map HistoryItem.toRow } :
      Database).Valid where
  sessions_nodup := hv.sessions_nodup
  sessions_ordered := hv.sessions_ordered
  runs_nodup := hv.runs_nodup
  run_written := hv.run_written
  run_session := hv.run_session
  one_active := hv.one_active
  history_written := by
    obtain ⟨old, h⟩ := hv.history_written
    exact ⟨old ++ items, by rw [h, List.map_append]⟩
  history_run := by
    intro row hrow
    rcases List.mem_append.mp hrow with hrow | hrow
    · exact hv.history_run row hrow
    · obtain ⟨item, hitem, rfl⟩ := List.mem_map.mp hrow
      exact (hitems item hitem).2
  history_session := by
    intro row hrow
    rcases List.mem_append.mp hrow with hrow | hrow
    · exact hv.history_session row hrow
    · obtain ⟨item, hitem, rfl⟩ := List.mem_map.mp hrow
      obtain ⟨sessionRow, hmem, hid⟩ := hsession
      exact ⟨sessionRow, hmem, hid.trans (hitems item hitem).1.symm⟩
  positions := by
    refine hv.positions_append sessionId (k := k) (fun row hrow => ?_) ?_
    · obtain ⟨item, hitem, rfl⟩ := List.mem_map.mp hrow
      exact (hitems item hitem).1
    · rw [List.map_map]
      exact hpositions

theorem finalized (hv : db.Valid) {row : RunRow} (hrow : row ∈ db.runs)
    (hactive : row.status = .active) {outcome : RunOutcome} {outcomeJson : Json}
    (hdump : dumpOutcome outcome = some outcomeJson) {sessionRow : SessionRow}
    (hsession : db.session? row.sessionId = some sessionRow) (uuid : Nat → String)
    (now : Timestamp) (delta : List ConversationItem) :
    (finalizedDatabase uuid (terminalRunRecord now row.activeRun outcome) outcomeJson delta
      sessionRow.updatedAt db).Valid := by
  set record := terminalRunRecord now row.activeRun outcome with hrecord
  have hdelta : ∀ item ∈ deltaItems uuid record (db.nextPosition record.sessionId) delta,
      item.sessionId = record.sessionId ∧ ∃ run ∈ finishedRuns record outcomeJson db.runs,
        run.id = item.runId ∧ run.status ≠ .active := by
    intro item hitem
    obtain ⟨hsessionId, hrunId, -⟩ := of_mem_deltaItems hitem
    have hmatch : Database.finishedRow record.status record.endedAt outcomeJson record.id
        record.sessionId row = _ := Database.finishedRow_of_match _ _ _ hactive
    refine ⟨hsessionId, _, List.mem_map_of_mem hrow, ?_⟩
    rw [hmatch]
    exact ⟨hrunId.symm, terminalStatusFor_ne_active outcome⟩
  have hended := hv.ended hrow hactive hdump now
  have hextended := hended.extended (hv.run_session row hrow) hdelta
    (deltaItems_position uuid record _ delta)
  have htouched := hextended.touched hsession (Nat.le_max_left _ record.endedAt)
  rwa [← deltaRows_eq] at htouched

variable [JsonParser]

theorem forked (hv : db.Valid) {source target : String} (htarget : ¬ db.HasSession target)
    {items : List HistoryItem} (hitems : db.history source = .ok items) (uuid : Nat → String)
    (now : Timestamp) :
    ({ db with
        sessions := db.sessions ++ [⟨target, now, now⟩]
        historyItems := db.historyItems ++ copiedRows uuid items target } : Database).Valid := by
  have hrows : items.map HistoryItem.toRow = db.historyItems.filter (·.sessionId = source) :=
    (hv.history_eq_ok.mp hitems).2 ▸ hv.stored_toRow source
  have hcopied : ∀ item ∈ copiedItems uuid items target,
      item.sessionId = target ∧ ∃ run ∈ db.runs, run.id = item.runId ∧ run.status ≠ .active := by
    intro item hitem
    obtain ⟨hsessionId, old, hold, hrunId⟩ := of_mem_copiedItems hitem
    have hmem : old.toRow ∈ db.historyItems.filter (·.sessionId = source) :=
      hrows ▸ List.mem_map_of_mem hold
    obtain ⟨run, hrun, hid, hended⟩ := hv.history_run _ (List.mem_of_mem_filter hmem)
    exact ⟨hsessionId, run, hrun, hid.trans hrunId.symm, hended⟩
  have hpositions : (copiedItems uuid items target).map (·.position)
      = List.range' (db.nextPosition target) items.length := by
    have hnone : db.historyItems.filter (·.sessionId = target) = [] :=
      List.filter_eq_nil_iff.mpr fun row hrow hsame =>
        htarget ((by simpa using hsame : row.sessionId = target) ▸ hv.history_session row hrow)
    obtain ⟨n, hn⟩ := hv.positions source
    have hrange : items.map (·.position) = List.range n := by
      rw [← hn, ← hrows, List.map_map]
      rfl
    have hlength : items.length = n := by simpa using congrArg List.length hrange
    rw [copiedItems_position, hrange, hv.nextPosition_eq, hnone, List.length_nil, hlength,
      List.range_eq_range']
  rw [copiedRows_eq]
  exact (hv.created htarget now).extended ⟨⟨target, now, now⟩, by simp, rfl⟩ hcopied hpositions

theorem change (hv : db.Valid) {ambient : Ambient} {call : Call} {reply : Except PyError Reply}
    {db' : Database} (h : Change ambient db call reply db') : db'.Valid := by
  cases h with
  | failed | read _ | idle _ => exact hv
  | created hnew => exact hv.created hnew _
  | started hsession hactive hfree _ => exact hv.started hsession hactive hfree rfl
  | finished hrow hactive hdump hsession => exact hv.finalized hrow hactive hdump hsession _ _ _
  | aborted hrow hactive hdump hsession => exact hv.finalized hrow hactive hdump hsession _ _ _
  | forked _ htarget hitems => exact hv.forked htarget hitems _ _

/-- **A call keeps the database well formed**, whatever it is and however it ends. -/
theorem run (hv : db.Valid) (call : Call) (ambient : Ambient) : (call.run ambient db).2.Valid :=
  hv.change (call.run_change ambient db)

end Database.Valid

/-! ## Legible databases -/

section Legible

variable [JsonParser]

/-- The parser reads everything that is stored. -/
structure Database.Legible (db : Database) : Prop where
  runs : ∀ row ∈ db.runs, row.Legible
  history : ∀ row ∈ db.historyItems, row.payloadJson.Parses

/-- The parser reads what the call is given to store. -/
def Call.Legible : Call → Prop
  | .finishRun _ _ outcome delta => outcome.Legible ∧ ∀ item ∈ delta, item.Legible
  | .createSession _ | .getSession _ | .listSessions | .startRun _ _ _ _ _ | .abortActiveRun _
  | .getHistory _ | .getRun _ _ | .listRuns _ | .forkSession _ _ => True

instance : ∀ call : Call, Decidable call.Legible
  | .finishRun _ _ outcome delta =>
    inferInstanceAs (Decidable (outcome.Legible ∧ ∀ item ∈ delta, item.Legible))
  | .createSession _ | .getSession _ | .listSessions | .startRun _ _ _ _ _ | .abortActiveRun _
  | .getHistory _ | .getRun _ _ | .listRuns _ | .forkSession _ _ => isTrue trivial

theorem Database.Valid.stored_legible {db : Database} (hv : db.Valid) (hlegible : db.Legible)
    (sessionId : String) : ∀ item ∈ db.stored sessionId, item.item.Legible := by
  intro item hitem
  have hrow : item.toRow ∈ db.historyItems.filter (·.sessionId = sessionId) :=
    hv.stored_toRow sessionId ▸ List.mem_map_of_mem hitem
  exact hlegible.history _ (List.mem_of_mem_filter hrow)

/-- **The history of a session of a legible database is read**, and is what its rows store. -/
theorem Database.Valid.history_eq {db : Database} (hv : db.Valid) (hlegible : db.Legible)
    (sessionId : String) : db.history sessionId = .ok (db.stored sessionId) :=
  hv.history_eq_ok.mpr ⟨hv.stored_legible hlegible sessionId, rfl⟩

namespace Database.Legible

variable {db : Database}

theorem empty : Database.Legible {} where
  runs := by simp
  history := by simp

theorem append (h : db.Legible) {items : List HistoryItem}
    (hitems : ∀ item ∈ items, item.item.Legible) (sessions : List SessionRow) :
    ({ db with
        sessions, historyItems := db.historyItems ++ items.map HistoryItem.toRow } :
      Database).Legible where
  runs := h.runs
  history := by
    intro row hrow
    rcases List.mem_append.mp hrow with hrow | hrow
    · exact h.history row hrow
    · obtain ⟨item, hitem, rfl⟩ := List.mem_map.mp hrow
      exact hitems item hitem

theorem finalized (h : db.Legible) {record : TerminalRun} {outcomeJson : Json}
    (houtcome : outcomeJson.Parses) {delta : List ConversationItem}
    (hdelta : ∀ item ∈ delta, item.Legible) (uuid : Nat → String) (updatedAt : Timestamp) :
    (finalizedDatabase uuid record outcomeJson delta updatedAt db).Legible where
  runs := by
    intro row hrow payload hpayload
    obtain ⟨old, hold, rfl⟩ := List.mem_map.mp hrow
    unfold finishedRow at hpayload
    split at hpayload
    · exact Option.some.inj hpayload ▸ houtcome
    · exact h.runs old hold payload hpayload
  history := by
    have hitems : ∀ item ∈ deltaItems uuid record (db.nextPosition record.sessionId) delta,
        item.item.Legible := by
      intro item hitem
      obtain ⟨k, hk, rfl⟩ := List.mem_mapIdx.mp hitem
      exact hdelta _ (List.getElem_mem hk)
    have happended := (h.append hitems db.sessions).history
    rwa [← deltaRows_eq] at happended

/-- **A call keeps a database legible**, if the parser reads what it was given to store. -/
theorem change (h : db.Legible) (hv : db.Valid) {ambient : Ambient} {call : Call}
    {reply : Except PyError Reply} {db' : Database} (hchange : Change ambient db call reply db')
    (hcall : call.Legible) : db'.Legible := by
  cases hchange with
  | failed | read _ | idle _ => exact h
  | created _ => exact ⟨h.runs, h.history⟩
  | started _ _ _ _ =>
    refine ⟨fun row hrow payload hpayload => ?_, h.history⟩
    rcases List.mem_append.mp hrow with hrow | hrow
    · exact h.runs row hrow payload hpayload
    · obtain rfl := List.mem_singleton.mp hrow
      cases hpayload
  | finished _ _ hdump _ => exact h.finalized (hcall.1 _ hdump) hcall.2 _ _
  | aborted _ _ hdump _ =>
    exact h.finalized (RunOutcome.legible_aborted _ hdump) (by simp) _ _
  | @forked source target items _ _ hitems =>
    obtain ⟨hread, rfl⟩ := hv.history_eq_ok.mp hitems
    rw [copiedRows_eq]
    refine h.append (fun item hitem => ?_) _
    obtain ⟨k, hk, rfl⟩ := List.mem_mapIdx.mp hitem
    have hcopied := hread _ (List.getElem_mem hk)
    exact hcopied

end Database.Legible

end Legible

end Tile
