import Mathlib.Data.List.Perm.Basic
import Tile.Store.Invariant
import Tile.Store.Isoformat

/-!
# Store/Columns — what the tables hold of an instant

An instant is stored as text and SQLite sorts the rows by that text, byte by byte.  **Listed records
are in the order of their instants** (`listed_in_time`), whichever way ties go.
-/

namespace Tile

/-! ## Columns -/

/-- A row of `sessions` as SQLite holds it. -/
structure SessionColumns where
  id : String
  createdAt : Text
  updatedAt : Text

/-- A row of `runs` as SQLite holds it. -/
structure RunColumns where
  id : String
  sessionId : String
  prompt : String
  status : RunStatus
  startedAt : Text
  endedAt : Option Text
  model : String
  provider : String
  outcomeJson : Option Json

def SessionColumns.row? (columns : SessionColumns) : Option SessionRow := do
  let createdAt ← decodeTimestamp columns.createdAt
  let updatedAt ← decodeTimestamp columns.updatedAt
  return { id := columns.id, createdAt, updatedAt }

def RunColumns.row? (columns : RunColumns) : Option RunRow := do
  let startedAt ← decodeTimestamp columns.startedAt
  let endedAt ← columns.endedAt.mapM decodeTimestamp
  return {
    id := columns.id
    sessionId := columns.sessionId
    prompt := columns.prompt
    status := columns.status
    startedAt, endedAt
    model := columns.model
    provider := columns.provider
    outcomeJson := columns.outcomeJson }

/-- `session_from_row(row)`; a text that is no instant is a value error. -/
def sessionFromColumns (columns : SessionColumns) : Except PyError SessionRecord :=
  match columns.row? with
  | none => .error (.backend (.value "timestamp"))
  | some row => sessionFromRow row

/-- A session record and the datetimes it holds. -/
structure DatedSession where
  record : SessionRecord
  createdAt : Datetime
  updatedAt : Datetime
  created : record.createdAt = createdAt.timestamp
  updated : record.updatedAt = updatedAt.timestamp

def DatedSession.row (session : DatedSession) : SessionRow := sessionValues session.record

/-- `session_values(record)`. -/
def DatedSession.columns (session : DatedSession) : SessionColumns where
  id := session.record.id
  createdAt := session.createdAt.isoformat
  updatedAt := session.updatedAt.isoformat

def RunRecord.startedAt : RunRecord → Timestamp
  | .active run => run.startedAt
  | .terminal run => run.startedAt

/-! ## Queries -/

/-- The rows of a table in some order, ties in any order. -/
structure OrderedBy {α : Type} (le : α → α → Prop) (table rows : List α) : Prop where
  perm : rows.Perm table
  sorted : rows.Pairwise le

/-- `created_at, id`. -/
def SessionColumns.Le (a b : SessionColumns) : Prop :=
  a.createdAt.encode < b.createdAt.encode ∨ a.createdAt.encode = b.createdAt.encode ∧ a.id ≤ b.id

/-- `started_at`. -/
def RunColumns.Le (a b : RunColumns) : Prop := ¬ b.startedAt.encode < a.startedAt.encode

theorem OrderedBy.of_map {α β : Type} {f : α → β} {le : β → β → Prop} {table : List α}
    {rows : List β} (h : OrderedBy le (table.map f) rows) :
    ∃ items, rows = items.map f ∧ OrderedBy (fun a b => le (f a) (f b)) table items := by
  obtain ⟨items, rfl, hperm⟩ := (congrFun₂ (List.eq_map_comp_perm f) rows table).mpr h.perm
  exact ⟨items, rfl, hperm, List.pairwise_map.mp h.sorted⟩

/-! ## Sessions -/

/-- `created_at, id`, over instants. -/
def SessionRow.Le (a b : SessionRow) : Prop :=
  a.createdAt < b.createdAt ∨ a.createdAt = b.createdAt ∧ a.id ≤ b.id

theorem SessionRow.Le.trans {a b c : SessionRow} (h : a.Le b) (h' : b.Le c) : a.Le c := by
  rcases h with h | ⟨h, hid⟩ <;> rcases h' with h' | ⟨h', hid'⟩
  · exact .inl (h.trans h')
  · exact .inl (h' ▸ h)
  · exact .inl (h ▸ h')
  · exact .inr ⟨h.trans h', String.le_trans hid hid'⟩

theorem SessionRow.Le.total (a b : SessionRow) : a.Le b ∨ b.Le a := by
  rcases lt_trichotomy a.createdAt b.createdAt with h | h | h
  · exact .inl (.inl h)
  · exact (String.le_total a.id b.id).imp (fun hid => .inr ⟨h, hid⟩) fun hid => .inr ⟨h.symm, hid⟩
  · exact .inr (.inl h)

theorem SessionRow.Le.id_eq {a b : SessionRow} (h : a.Le b) (h' : b.Le a) : a.id = b.id := by
  rcases h with h | ⟨h, hid⟩ <;> rcases h' with h' | ⟨h', hid'⟩
  · exact absurd h' h.asymm
  · exact absurd h'.symm h.ne
  · exact absurd h.symm h'.ne
  · exact String.le_antisymm hid hid'

theorem Database.sessionRows_sorted (db : Database) : db.sessionRows.Pairwise SessionRow.Le := by
  have hle : ∀ a b : SessionRow, (decide (a.createdAt < b.createdAt) ||
      (decide (a.createdAt = b.createdAt) && decide (a.id ≤ b.id))) = true ↔ a.Le b := by
    simp [SessionRow.Le]
  refine (List.pairwise_mergeSort (fun a b c h h' => ?_) (fun a b => ?_) db.sessions).imp
    fun h => (hle _ _).mp h
  · exact (hle a c).mpr (((hle a b).mp h).trans ((hle b c).mp h'))
  · rw [Bool.or_eq_true, hle, hle]
    exact SessionRow.Le.total a b

namespace DatedSession

theorem row?_columns (session : DatedSession) :
    session.columns.row? = some session.row := by
  simp only [SessionColumns.row?, columns, Datetime.decodeTimestamp_isoformat, ← session.created,
    ← session.updated, Option.bind_eq_bind, Option.bind_some]
  rfl

theorem sessionFromRow_row (session : DatedSession) :
    sessionFromRow session.row = .ok session.record :=
  dif_pos session.record.ordered

/-- **A record is read back.** -/
theorem sessionFromColumns_columns (session : DatedSession) :
    sessionFromColumns session.columns = .ok session.record := by
  rw [sessionFromColumns, row?_columns]
  exact session.sessionFromRow_row

/-- The texts are ordered as the instants are. -/
theorem le_columns_iff (a b : DatedSession) : a.columns.Le b.columns ↔ a.row.Le b.row := by
  rw [SessionColumns.Le, columns, columns, Datetime.encode_isoformat_lt_iff,
    Datetime.encode_isoformat_eq_iff, ← a.created, ← b.created]
  rfl

/-- Sorted by text, the records are sorted by instant. -/
theorem list_sessions {table : List DatedSession} {rows : List SessionColumns}
    (h : OrderedBy SessionColumns.Le (table.map columns) rows) :
    ∃ sessions, rows.mapM sessionFromColumns = .ok (sessions.map record) ∧
      OrderedBy (fun a b => a.row.Le b.row) table sessions := by
  obtain ⟨sessions, rfl, hordered⟩ := h.of_map
  exact ⟨sessions, mapM_map_ok sessionFromColumns_columns sessions, hordered.perm,
    hordered.sorted.imp fun hle => (le_columns_iff _ _).mp hle⟩

end DatedSession

/-- **The query on the texts answers as the query on the instants does.** -/
theorem mapM_sessionFromColumns {db : Database} (hv : db.Valid) {table : List DatedSession}
    (htable : table.map DatedSession.row = db.sessions) {rows : List SessionColumns}
    (h : OrderedBy SessionColumns.Le (table.map DatedSession.columns) rows) :
    rows.mapM sessionFromColumns = db.sessionRows.mapM sessionFromRow := by
  obtain ⟨sessions, hrows, hordered⟩ := DatedSession.list_sessions h
  have hperm : (sessions.map DatedSession.row).Perm db.sessionRows :=
    (hordered.perm.map _).trans (htable ▸ (List.mergeSort_perm db.sessions _).symm)
  have hsame : sessions.map DatedSession.row = db.sessionRows := by
    refine hperm.eq_of_pairwise (fun a b ha hb h h' => ?_) (List.pairwise_map.mpr hordered.sorted)
      db.sessionRows_sorted
    exact List.inj_on_of_nodup_map hv.sessions_nodup (List.mem_mergeSort.mp (hperm.mem_iff.mp ha))
      (List.mem_mergeSort.mp hb) (h.id_eq h')
  rw [hrows, ← hsame, mapM_map_ok DatedSession.sessionFromRow_row]

/-! ## Runs -/

section Reading

variable [JsonParser]

/-- `run_from_row(row)`; a text that is no instant is a value error. -/
def runFromColumns (columns : RunColumns) : Except PyError RunRecord :=
  match columns.row? with
  | none => .error (.backend (.value "timestamp"))
  | some row => runFromRow row

/-- A readable row of `runs` and the datetimes it holds. -/
structure DatedRun where
  row : RunRow
  record : RunRecord
  startedAt : Datetime
  endedAt : Option Datetime
  reads : runFromRow row = .ok record
  started : row.startedAt = startedAt.timestamp
  ended : row.endedAt = endedAt.map Datetime.timestamp

/-- `run_values(record)`, and `terminal_run_values(record)` once the run has ended. -/
def DatedRun.columns (run : DatedRun) : RunColumns where
  id := run.row.id
  sessionId := run.row.sessionId
  prompt := run.row.prompt
  status := run.row.status
  startedAt := run.startedAt.isoformat
  endedAt := run.endedAt.map Datetime.isoformat
  model := run.row.model
  provider := run.row.provider
  outcomeJson := run.row.outcomeJson

theorem terminalRunFromRow_eq_ok {row : RunRow} {endedAt : Timestamp} {outcomeJson : Json}
    {run : TerminalRun} (h : terminalRunFromRow row endedAt outcomeJson = .ok run) :
    run.toRunBase = row.base := by
  rw [terminalRunFromRow] at h
  split at h
  · cases h
  split at h
  · split at h
    · cases h
    · rw [← Except.ok.inj h]
  · cases h

theorem toRunBase_of_runFromRow {row : RunRow} {run : TerminalRun}
    (h : runFromRow row = .ok (.terminal run)) : run.toRunBase = row.base := by
  rw [runFromRow] at h
  split at h
  · cases hrow : activeRunFromRow row <;> simp [hrow, Except.map] at h
  split at h
  next endedAt outcomeJson _ _ =>
    cases hrow : terminalRunFromRow row endedAt outcomeJson with
    | error e => simp [hrow, Except.map] at h
    | ok run' =>
      simp only [hrow, Except.map, Except.ok.injEq, RunRecord.terminal.injEq] at h
      exact h ▸ terminalRunFromRow_eq_ok hrow
  next => cases h

theorem startedAt_of_runFromRow {row : RunRow} {record : RunRecord}
    (h : runFromRow row = .ok record) : record.startedAt = row.startedAt := by
  rcases record with run | run
  · exact congrArg RunBase.startedAt (runFromRow_eq_active h).2
  · exact congrArg RunBase.startedAt (toRunBase_of_runFromRow h)

namespace DatedRun

theorem row?_columns (run : DatedRun) : run.columns.row? = some run.row := by
  have hended : (run.endedAt.map Datetime.isoformat).mapM decodeTimestamp
      = some run.row.endedAt := by
    rw [run.ended]
    rcases run.endedAt with - | endedAt
    · rfl
    · exact congrArg (Option.map some) endedAt.decodeTimestamp_isoformat
  simp only [RunColumns.row?, columns, Datetime.decodeTimestamp_isoformat, hended, ← run.started,
    Option.bind_eq_bind, Option.bind_some]
  rfl

theorem runFromColumns_columns (run : DatedRun) : runFromColumns run.columns = .ok run.record := by
  rw [runFromColumns, row?_columns]
  exact run.reads

theorem le_columns_iff (a b : DatedRun) :
    RunColumns.Le a.columns b.columns ↔ a.record.startedAt ≤ b.record.startedAt := by
  rw [RunColumns.Le, columns, columns, Datetime.encode_isoformat_lt_iff, not_lt, ← a.started,
    ← b.started, startedAt_of_runFromRow a.reads, startedAt_of_runFromRow b.reads]

theorem list_runs {table : List DatedRun} {sessionId : String} {rows : List RunColumns}
    (h : OrderedBy RunColumns.Le
      ((table.map columns).filter fun columns => columns.sessionId = sessionId) rows) :
    ∃ runs, rows.mapM runFromColumns = .ok (runs.map record) ∧
      OrderedBy (fun a b => a.record.startedAt ≤ b.record.startedAt)
        (table.filter fun run => run.row.sessionId = sessionId) runs := by
  rw [List.filter_map] at h
  obtain ⟨runs, rfl, hordered⟩ := h.of_map
  exact ⟨runs, mapM_map_ok runFromColumns_columns runs, hordered.perm,
    hordered.sorted.imp fun hle => (le_columns_iff _ _).mp hle⟩

end DatedRun

/-- **The order of the stored texts is the order of the instants.**  SQLite sorts rows by the bytes
of their texts and leaves ties open; each text is read back as the datetime that was written, so the
records of all sessions, and those of the runs of one, are listed in time. -/
theorem listed_in_time :
    (∀ a b : Datetime,
      (a.isoformat.encode < b.isoformat.encode ↔ a.timestamp < b.timestamp) ∧
      (a.isoformat.encode = b.isoformat.encode ↔ a.timestamp = b.timestamp)) ∧
    (∀ a : Datetime, fromisoformat a.isoformat = some (a, some 0) ∧
      decodeTimestamp a.isoformat = some a.timestamp) ∧
    (∀ (table : List DatedSession) (rows : List SessionColumns),
      OrderedBy SessionColumns.Le (table.map DatedSession.columns) rows →
      ∃ records, rows.mapM sessionFromColumns = .ok records ∧
        records.Perm (table.map DatedSession.record) ∧
        records.Pairwise fun a b => a.createdAt ≤ b.createdAt) ∧
    ∀ (table : List DatedRun) (sessionId : String) (rows : List RunColumns),
      OrderedBy RunColumns.Le
        ((table.map DatedRun.columns).filter fun columns => columns.sessionId = sessionId) rows →
      ∃ records, rows.mapM runFromColumns = .ok records ∧
        records.Perm
          ((table.filter fun run => run.row.sessionId = sessionId).map DatedRun.record) ∧
        records.Pairwise fun a b => a.startedAt ≤ b.startedAt := by
  refine ⟨fun a b => ⟨a.encode_isoformat_lt_iff b, a.encode_isoformat_eq_iff b⟩,
    fun a => ⟨a.fromisoformat_isoformat, a.decodeTimestamp_isoformat⟩,
    fun table rows h => ?sessions, fun table sessionId rows h => ?runs⟩
  case sessions =>
    obtain ⟨sessions, hrows, hordered⟩ := DatedSession.list_sessions h
    refine ⟨_, hrows, hordered.perm.map _, List.pairwise_map.mpr (hordered.sorted.imp ?_)⟩
    rintro a b (hlt | ⟨heq, -⟩)
    · exact hlt.le
    · exact heq.le
  case runs =>
    obtain ⟨runs, hrows, hordered⟩ := DatedRun.list_runs h
    exact ⟨_, hrows, hordered.perm.map _, List.pairwise_map.mpr hordered.sorted⟩

end Reading

def sessionAt (id : String) (now : Datetime) : DatedSession where
  record := newSessionRecord now.timestamp id
  createdAt := now
  updatedAt := now
  created := rfl
  updated := rfl

def runAt (id : String) (now : Datetime) : DatedRun where
  row := runValues (newActiveRunRecord now.timestamp id "s" "prompt" "model" "provider")
  record := .active (newActiveRunRecord now.timestamp id "s" "prompt" "model" "provider")
  startedAt := now
  endedAt := none
  reads := rfl
  started := rfl
  ended := rfl

def noon : Datetime := { year := 2024, month := 2, day := 29, hour := 12 }

def afterNoon : Datetime := { year := 2024, month := 2, day := 29, hour := 12, microsecond := 1 }

/-- A whole second sorts before its fractions. -/
theorem listed_in_time_noon :
    (∃ records, [(sessionAt "b" noon).columns, (sessionAt "a" afterNoon).columns].mapM
        sessionFromColumns = .ok records ∧
      records.Perm [(sessionAt "a" afterNoon).record, (sessionAt "b" noon).record] ∧
      records.Pairwise fun a b => a.createdAt ≤ b.createdAt) ∧
    ∃ records, [(runAt "r" noon).columns, (runAt "q" afterNoon).columns].mapM runFromColumns
        = .ok records ∧
      records.Perm [(runAt "q" afterNoon).record, (runAt "r" noon).record] ∧
      records.Pairwise fun a b => a.startedAt ≤ b.startedAt := by
  have hnoon : noon.isoformat.encode < afterNoon.isoformat.encode := by decide
  refine ⟨listed_in_time.2.2.1 [sessionAt "a" afterNoon, sessionAt "b" noon] _ ⟨.swap _ _ _, ?_⟩,
    listed_in_time.2.2.2 [runAt "q" afterNoon, runAt "r" noon] "s" _ ⟨.swap _ _ _, ?_⟩⟩
  · exact List.pairwise_pair.mpr (.inl hnoon)
  · exact List.pairwise_pair.mpr (List.lt_asymm hnoon)

end Tile
