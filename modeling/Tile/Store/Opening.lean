import Tile.Library.Transaction
import Tile.Store.Lifecycle

/-!
# Store/Opening — a database is made Tile's, or left as it was

    connect ── PRAGMA ── [tile_meta, version check, tables, indexes] ──▸ a store

Opening a database file creates what is missing of the unified schema, in one transaction, or
rejects the file.  **A file that is not opened is not changed; a file that is opened keeps all it
had, was Tile's or held no table, and is opened again by anyone without a change** (`opening`).
Over any sequence of openings and store calls by any number of processes, **a file that started
empty is a trace from the empty database, and stays Tile's once it was opened** (`file_history`).
-/

namespace Tile

/-! ## A database file -/

/-- `sqlite_master.type`. -/
inductive ObjectKind where
  | table | index | view
  deriving Repr, DecidableEq

/-- The objects of the unified schema. -/
inductive TileObject where
  | sessions | runs | historyItems | runsSessionId | oneActiveRunPerSession
  deriving Repr, DecidableEq

/-- `type` of an object of Tile's. -/
def TileObject.kind : TileObject → ObjectKind
  | .sessions | .runs | .historyItems => .table
  | .runsSessionId | .oneActiveRunPerSession => .index

/-- `name` of an object of Tile's. -/
def TileObject.name : TileObject → String
  | .sessions => "sessions"
  | .runs => "runs"
  | .historyItems => "history_items"
  | .runsSessionId => "runs_session_id"
  | .oneActiveRunPerSession => "one_active_run_per_session"

/-- A row of `sqlite_master`: an object of Tile's, or one that another statement created. -/
inductive SchemaObject where
  | own (object : TileObject)
  | foreign (kind : ObjectKind) (name sql : String)
  deriving Repr, DecidableEq

namespace SchemaObject

def kind : SchemaObject → ObjectKind
  | own object => object.kind
  | foreign kind _ _ => kind

def name : SchemaObject → String
  | own object => object.name
  | foreign _ name _ => name

end SchemaObject

/-- The rows of the table `tile_meta`, if there is one, the other objects in the order they were
created in, and the rows of Tile's tables among them. -/
structure SqliteFile where
  tileMeta : Option (List (String × String)) := none
  objects : List SchemaObject := []
  database : Database := {}
  deriving DecidableEq

/-- SQLite compares names without the case of ASCII letters. -/
def sameName (name name' : String) : Bool := name.toLower = name'.toLower

/-- A table is created without rows. -/
def TileObject.createIn (database : Database) : TileObject → Database
  | .sessions => { database with sessions := [] }
  | .runs => { database with runs := [] }
  | .historyItems => { database with historyItems := [] }
  | .runsSessionId | .oneActiveRunPerSession => database

namespace SqliteFile

variable (file : SqliteFile)

/-- The table or view of a name. -/
def relation? (name : String) : Option SchemaObject :=
  file.objects.find? fun object => object.kind ≠ .index ∧ sameName object.name name

/-- The index of a name. -/
def index? (name : String) : Option SchemaObject :=
  file.objects.find? fun object => object.kind = .index ∧ sameName object.name name

/-- The rows of `tile_meta`; a table that is missing has none. -/
def metaRows : List (String × String) := file.tileMeta.getD []

/-- The file with one more object of Tile's. -/
def add (object : TileObject) : SqliteFile where
  tileMeta := file.tileMeta
  objects := file.objects ++ [.own object]
  database := object.createIn file.database

/-- Two active rows of one session, which the unique index does not allow. -/
def hasRivals : Bool :=
  file.database.runs.zipIdx.any fun (row, i) => file.database.runs.zipIdx.any fun (row', j) =>
    i < j ∧ row.status = .active ∧ row'.status = .active ∧ row.sessionId = row'.sessionId

end SqliteFile

/-- Raised when a database does not use the supported unified schema. -/
inductive SchemaRejection where
  | unsupportedVersion (version : String)
  | preUnified (legacyKey : String)
  | unversioned (tableName : String)
  deriving Repr, DecidableEq

/-- The text it is raised with; `repr` is Python's. -/
def SchemaRejection.message (repr : String → String) : SchemaRejection → String
  | .unsupportedVersion version =>
    s!"Unsupported SQLite store schema version: {version}. Expected 1."
  | .preUnified legacyKey =>
    s!"Unsupported pre-unified Tile schema ({legacyKey}); create a new database."
  | .unversioned tableName =>
    "Cannot initialize the unified Store over an unversioned database containing table " ++
      s!"{repr tableName}."

/-- Why a file is not opened. -/
inductive OpenError where
  | rejected (rejection : SchemaRejection)
  | sqlite (error : SqlError)
  deriving Repr, DecidableEq

/-! ## `initialize_sqlite_schema` -/

/-- `SQLITE_STORE_SCHEMA_VERSION`. -/
def sqliteStoreSchemaVersion : String := "1"

/-- The key of `tile_meta` that holds the version. -/
def schemaVersionKey : String := "store_schema_version"

/-- The keys that the removed split stores wrote. -/
def legacyVersionKeys : List String := ["schema_version", "run_schema_version"]

/-- SQLite searches `key IN (…)` in the order of the keys, and the last of them comes first. -/
def SqliteFile.legacyVersionKey? (file : SqliteFile) : Option String :=
  legacyVersionKeys.reverse.find? fun key => (file.metaRows.lookup key).isSome

/-- A table that is neither Tile's metadata nor SQLite's own. -/
def SqliteFile.existingApplicationTable? (file : SqliteFile) : Option String :=
  (file.objects.find? fun object =>
    object.kind = .table ∧ object.name ∉ ["tile_meta", "sqlite_sequence"]).map (·.name)

/-- A program over a database file that is being opened. -/
abbrev Opening (α : Type) := Effect (TransactionState SqliteFile) OpenError α

namespace Opening

/-- How a statement fails on a backend that does not work. -/
abbrev fault : OpenError := .sqlite .operational

/-- One statement. -/
def execute {α : Type} (act : SqliteFile → Except OpenError (α × SqliteFile)) : Opening α :=
  Transaction.execute fault act

/-- A statement that only reads. -/
def query {α : Type} (read : SqliteFile → α) : Opening α := Transaction.query fault read

/-- `CREATE TABLE IF NOT EXISTS`: a view will do as well, an index of that name does not. -/
def createTable (object : TileObject) (file : SqliteFile) : Except OpenError (Unit × SqliteFile) :=
  if (file.relation? object.name).isSome then .ok ((), file)
  else if (file.index? object.name).isSome then .error (.sqlite .operational)
  else .ok ((), file.add object)

/-- Create the database metadata table. -/
def createMetaTable : Opening Unit :=
  execute fun file =>
    if file.tileMeta.isNone ∧ (file.index? "tile_meta").isSome then .error (.sqlite .operational)
    else .ok ((), { file with tileMeta := some file.metaRows })

/-- Return the unified schema version when present. -/
def readSchemaVersion : Opening (Option String) :=
  query fun file => file.metaRows.lookup schemaVersionKey

/-- Return a removed split-store version key when present. -/
def legacyVersionKey : Opening (Option String) := query SqliteFile.legacyVersionKey?

/-- Return an existing non-metadata table when present. -/
def existingApplicationTable : Opening (Option String) := query SqliteFile.existingApplicationTable?

/-- A database of a removed split store is rejected. -/
def rejectLegacyKey : Option String → Opening Unit
  | some legacyKey => Effect.raise (.rejected (.preUnified legacyKey))
  | none => return

/-- A database with a table that is not Tile's is rejected. -/
def rejectTable : Option String → Opening Unit
  | some tableName => Effect.raise (.rejected (.unversioned tableName))
  | none => return

/-- Reject removed split schemas and unrelated populated databases. -/
def rejectIncompatibleUnversionedSchema : Opening Unit := do
  rejectLegacyKey (← legacyVersionKey)
  rejectTable (← existingApplicationTable)

/-- Record the current unified schema version. -/
def writeSchemaVersion : Opening Unit :=
  execute fun file =>
    if (file.metaRows.lookup schemaVersionKey).isSome then .error (.sqlite .integrity)
    else .ok ((), { file with
      tileMeta := some (file.metaRows ++ [(schemaVersionKey, sqliteStoreSchemaVersion)]) })

/-- Create the session aggregate root table. -/
def createSessionTable : Opening Unit := execute (createTable .sessions)

/-- Create the persistent run table. -/
def createRunTable : Opening Unit := execute (createTable .runs)

/-- Create the flat committed history table. -/
def createHistoryTable : Opening Unit := execute (createTable .historyItems)

section

-- What SQLite makes of one of the indexes over a table `runs` that is not Tile's.
variable (indexForeign : SchemaObject → TileObject → Except SqlError Unit)

/-- Build an index over the rows of `runs`. -/
def buildIndex (table : SchemaObject) (object : TileObject) (file : SqliteFile) :
    Except SqlError Unit :=
  if table = .own .runs then
    if object = .oneActiveRunPerSession ∧ file.hasRivals then .error .integrity else .ok ()
  else indexForeign table object

/-- `CREATE INDEX IF NOT EXISTS … ON runs`. -/
def createIndex (object : TileObject) (file : SqliteFile) : Except OpenError (Unit × SqliteFile) :=
  match file.relation? "runs" with
  | none => .error (.sqlite .operational)
  | some table =>
    if table.kind = .view ∨ (file.relation? object.name).isSome then .error (.sqlite .operational)
    else if (file.index? object.name).isSome then .ok ((), file)
    else match buildIndex indexForeign table object file with
      | .ok _ => .ok ((), file.add object)
      | .error error => .error (.sqlite error)

/-- Create lookup and active-run invariant indexes. -/
def createIndexes : Opening Unit := do
  execute (createIndex indexForeign .runsSessionId)
  execute (createIndex indexForeign .oneActiveRunPerSession)

/-- Create session, run, history, and index schema objects. -/
def createSchema : Opening Unit := do
  createSessionTable
  createRunTable
  createHistoryTable
  createIndexes indexForeign

/-- What is done about the version that was read. -/
def initializeVersion : Option String → Opening Unit
  | none => do
    rejectIncompatibleUnversionedSchema
    createSchema indexForeign
    writeSchemaVersion
  | some version =>
    if version ≠ sqliteStoreSchemaVersion then
      Effect.raise (.rejected (.unsupportedVersion version))
    else createSchema indexForeign

/-- The block of `initialize_sqlite_schema`. -/
def initializeBlock : Opening Unit := do
  createMetaTable
  initializeVersion indexForeign (← readSchemaVersion)

/-- Create the supported schema or reject an incompatible database. -/
def initializeSqliteSchema : Opening Unit :=
  Transaction.immediate fault (initializeBlock indexForeign)

/-- `SQLiteStore.__init__` on a file: connect, switch foreign keys on, initialize the schema. -/
def openStore : Opening Unit := do
  Transaction.tick fault
  Transaction.tick fault
  initializeSqliteSchema indexForeign

end

/-! ## What an opening does -/

section

variable (indexForeign : SchemaObject → TileObject → Except SqlError Unit)

theorem transactional_execute {α : Type}
    (act : SqliteFile → Except OpenError (α × SqliteFile)) :
    Transaction.Transactional (execute act) :=
  .execute fault act

theorem transactional_query {α : Type} (read : SqliteFile → α) :
    Transaction.Transactional (query read) :=
  .query fault read

theorem transactional_createSchema : Transaction.Transactional (createSchema indexForeign) :=
  (transactional_execute _).bind fun _ => (transactional_execute _).bind fun _ =>
    (transactional_execute _).bind fun _ => (transactional_execute _).bind fun _ =>
      transactional_execute _

theorem transactional_rejectLegacyKey (key : Option String) :
    Transaction.Transactional (rejectLegacyKey key) := by
  cases key with
  | some key => exact .raise _
  | none => exact .pure ()

theorem transactional_rejectTable (tableName : Option String) :
    Transaction.Transactional (rejectTable tableName) := by
  cases tableName with
  | some tableName => exact .raise _
  | none => exact .pure ()

theorem transactional_reject :
    Transaction.Transactional rejectIncompatibleUnversionedSchema :=
  (transactional_query _).bind fun key => (transactional_rejectLegacyKey key).bind fun _ =>
    (transactional_query _).bind transactional_rejectTable

theorem transactional_initializeVersion (version : Option String) :
    Transaction.Transactional (initializeVersion indexForeign version) := by
  cases version with
  | none =>
    exact transactional_reject.bind fun _ => (transactional_createSchema indexForeign).bind fun _ =>
      transactional_execute _
  | some version =>
    rw [initializeVersion]
    split
    · exact .raise _
    · exact transactional_createSchema indexForeign

theorem transactional_initializeBlock :
    Transaction.Transactional (initializeBlock indexForeign) :=
  (transactional_execute _).bind fun _ => (transactional_query _).bind fun version =>
    transactional_initializeVersion indexForeign version

end

end Opening

/-! ## Objects once created -/

namespace SqliteFile

variable {file file' : SqliteFile} {object : TileObject} {name : String}

theorem sameName_self (name : String) : sameName name name = true := by simp [sameName]

theorem relation?_add :
    (file.add object).relation? name = (file.relation? name).or
      (if object.kind ≠ .index ∧ sameName object.name name then some (.own object) else none) := by
  unfold relation? add
  rw [List.find?_append, List.find?_singleton]
  exact congrArg _ (if_congr decide_eq_true_iff rfl rfl)

theorem index?_add :
    (file.add object).index? name = (file.index? name).or
      (if object.kind = .index ∧ sameName object.name name then some (.own object) else none) := by
  unfold index? add
  rw [List.find?_append, List.find?_singleton]
  exact congrArg _ (if_congr decide_eq_true_iff rfl rfl)

/-- What is there is found again. -/
theorem relation?_add_of_some {table : SchemaObject} (h : file.relation? name = some table) :
    (file.add object).relation? name = some table := by
  rw [relation?_add, h, Option.some_or]

theorem relation?_add_index (hkind : object.kind = .index) :
    (file.add object).relation? name = file.relation? name := by
  rw [relation?_add, if_neg (fun h => h.1 hkind), Option.or_none]

theorem isSome_relation?_add (h : (file.relation? name).isSome = true) :
    ((file.add object).relation? name).isSome = true := by
  obtain ⟨table, htable⟩ := Option.isSome_iff_exists.mp h
  rw [relation?_add_of_some htable]
  rfl

theorem isSome_relation?_self (hkind : object.kind ≠ .index) :
    ((file.add object).relation? object.name).isSome = true := by
  rw [relation?_add, if_pos ⟨hkind, sameName_self _⟩]
  cases file.relation? object.name <;> rfl

theorem isSome_index?_add (h : (file.index? name).isSome = true) :
    ((file.add object).index? name).isSome = true := by
  rw [index?_add]
  obtain ⟨index, hindex⟩ := Option.isSome_iff_exists.mp h
  rw [hindex]
  rfl

theorem isSome_index?_self (hkind : object.kind = .index) :
    ((file.add object).index? object.name).isSome = true := by
  rw [index?_add, if_pos ⟨hkind, sameName_self _⟩]
  cases file.index? object.name <;> rfl

end SqliteFile

/-! ## What an opening keeps and leaves -/

/-- Everything in the file is there still; rows may have come to `tile_meta`. -/
structure Kept (file file' : SqliteFile) : Prop where
  objects : file.objects <+: file'.objects
  metaRows : file.metaRows <+: file'.metaRows
  sessions : .own .sessions ∈ file.objects → file'.database.sessions = file.database.sessions
  runs : .own .runs ∈ file.objects → file'.database.runs = file.database.runs
  historyItems : .own .historyItems ∈ file.objects →
    file'.database.historyItems = file.database.historyItems

namespace Kept

variable {file file' file'' : SqliteFile}

theorem refl (file : SqliteFile) : Kept file file :=
  ⟨List.prefix_rfl, List.prefix_rfl, fun _ => rfl, fun _ => rfl, fun _ => rfl⟩

theorem trans (h : Kept file file') (h' : Kept file' file'') : Kept file file'' where
  objects := h.objects.trans h'.objects
  metaRows := h.metaRows.trans h'.metaRows
  sessions hmem := (h'.sessions (h.objects.subset hmem)).trans (h.sessions hmem)
  runs hmem := (h'.runs (h.objects.subset hmem)).trans (h.runs hmem)
  historyItems hmem := (h'.historyItems (h.objects.subset hmem)).trans (h.historyItems hmem)

theorem ofMeta {rows : List (String × String)} (h : file.metaRows <+: rows) :
    Kept file { file with tileMeta := some rows } :=
  ⟨List.prefix_rfl, h, fun _ => rfl, fun _ => rfl, fun _ => rfl⟩

/-- An object that is there is not created again. -/
theorem add {object : TileObject} (h : .own object ∉ file.objects) :
    Kept file (file.add object) where
  objects := List.prefix_append _ _
  metaRows := List.prefix_rfl
  sessions hmem := by
    cases object with
    | sessions => exact absurd hmem h
    | _ => rfl
  runs hmem := by
    cases object with
    | runs => exact absurd hmem h
    | _ => rfl
  historyItems hmem := by
    cases object with
    | historyItems => exact absurd hmem h
    | _ => rfl

end Kept

theorem SqliteFile.own_notMem_of_relation? {file : SqliteFile} {object : TileObject}
    (hkind : object.kind ≠ .index) (h : file.relation? object.name = none) :
    .own object ∉ file.objects := by
  intro hmem
  have hfound := List.find?_eq_none.mp h (.own object) hmem
  simp [SchemaObject.kind, SchemaObject.name, hkind, sameName_self] at hfound

theorem SqliteFile.own_notMem_of_index? {file : SqliteFile} {object : TileObject}
    (hkind : object.kind = .index) (h : file.index? object.name = none) :
    .own object ∉ file.objects := by
  intro hmem
  have hfound := List.find?_eq_none.mp h (.own object) hmem
  simp [SchemaObject.kind, SchemaObject.name, hkind, sameName_self] at hfound

/-- Nothing is missing of the schema, so that opening the file changes nothing. -/
structure Unified (file : SqliteFile) : Prop where
  version : ∃ rows, file.tileMeta = some rows ∧
    rows.lookup schemaVersionKey = some sqliteStoreSchemaVersion
  sessions : (file.relation? TileObject.sessions.name).isSome = true
  runs : ∃ table, file.relation? TileObject.runs.name = some table ∧ table.kind ≠ .view
  historyItems : (file.relation? TileObject.historyItems.name).isSome = true
  runsSessionId : file.relation? TileObject.runsSessionId.name = none ∧
    (file.index? TileObject.runsSessionId.name).isSome = true
  oneActiveRunPerSession : file.relation? TileObject.oneActiveRunPerSession.name = none ∧
    (file.index? TileObject.oneActiveRunPerSession.name).isSome = true

/-- Without a removed version key and without a table that is not SQLite's. -/
structure SqliteFile.Fresh (file : SqliteFile) : Prop where
  keys : ∀ key ∈ legacyVersionKeys, file.metaRows.lookup key = none
  tables : ∀ object ∈ file.objects, object.kind = .table →
    object.name ∈ ["tile_meta", "sqlite_sequence"]

/-- Tile's by its version, or fresh and without one. -/
def SqliteFile.Compatible (file : SqliteFile) : Prop :=
  file.metaRows.lookup schemaVersionKey = some sqliteStoreSchemaVersion ∨
    file.metaRows.lookup schemaVersionKey = none ∧ file.Fresh

namespace Opening

variable {indexForeign : SchemaObject → TileObject → Except SqlError Unit}
  {file file' : SqliteFile} {object : TileObject}

theorem createTable_cases (h : createTable object file = .ok ((), file')) :
    file' = file ∧ (file.relation? object.name).isSome = true ∨
      file' = file.add object ∧ file.relation? object.name = none := by
  unfold createTable at h
  split at h
  next hfound =>
    obtain rfl : file = file' := by simpa using h
    exact .inl ⟨rfl, hfound⟩
  next hmissing =>
    split at h
    · cases h
    · obtain rfl : file.add object = file' := by simpa using h
      exact .inr ⟨rfl, by simpa using hmissing⟩

theorem createTable_of_isSome (h : (file.relation? object.name).isSome = true) :
    createTable object file = .ok ((), file) := if_pos h

theorem createIndex_of_isSome {table : SchemaObject}
    (hruns : file.relation? TileObject.runs.name = some table) (hkind : table.kind ≠ .view)
    (h : file.relation? object.name = none ∧ (file.index? object.name).isSome = true) :
    createIndex indexForeign object file = .ok ((), file) := by
  have htable : file.relation? "runs" = some table := hruns
  rw [createIndex, htable]
  simp [hkind, h.1, h.2]

theorem createIndex_cases (h : createIndex indexForeign object file = .ok ((), file')) :
    (∃ table, file.relation? TileObject.runs.name = some table ∧ table.kind ≠ .view) ∧
      file.relation? object.name = none ∧
      (file' = file ∧ (file.index? object.name).isSome = true ∨
        file' = file.add object ∧ file.index? object.name = none) := by
  unfold createIndex at h
  split at h
  · cases h
  next table htable =>
    split at h
    · cases h
    next hfree =>
      obtain ⟨hkind, hrelation⟩ := not_or.mp hfree
      refine ⟨⟨table, htable, hkind⟩, by simpa using hrelation, ?_⟩
      split at h
      next hfound =>
        obtain rfl : file = file' := by simpa using h
        exact .inl ⟨rfl, hfound⟩
      next hmissing =>
        split at h
        · obtain rfl : file.add object = file' := by simpa using h
          exact .inr ⟨rfl, by simpa using hmissing⟩
        · cases h

theorem createTable_kept (hkind : object.kind = .table)
    (h : createTable object file = .ok ((), file')) :
    Kept file file' ∧ file'.tileMeta = file.tileMeta ∧
      (file'.relation? object.name).isSome = true ∧
      ∀ name, (file.relation? name).isSome = true → (file'.relation? name).isSome = true := by
  have hkind' : object.kind ≠ .index := by simp [hkind]
  rcases createTable_cases h with ⟨rfl, hfound⟩ | ⟨rfl, hmissing⟩
  · exact ⟨.refl file', rfl, hfound, fun _ h => h⟩
  · exact ⟨.add (SqliteFile.own_notMem_of_relation? hkind' hmissing), rfl,
      SqliteFile.isSome_relation?_self hkind', fun _ => SqliteFile.isSome_relation?_add⟩

theorem createIndex_kept (hkind : object.kind = .index)
    (h : createIndex indexForeign object file = .ok ((), file')) :
    Kept file file' ∧ file'.tileMeta = file.tileMeta ∧ file'.relation? = file.relation? ∧
      (∃ table, file.relation? TileObject.runs.name = some table ∧ table.kind ≠ .view) ∧
      (file'.relation? object.name = none ∧ (file'.index? object.name).isSome = true) ∧
      ∀ name, (file.index? name).isSome = true → (file'.index? name).isSome = true := by
  obtain ⟨hruns, hrelation, ⟨rfl, hfound⟩ | ⟨rfl, hmissing⟩⟩ := createIndex_cases h
  · exact ⟨.refl file', rfl, rfl, hruns, ⟨hrelation, hfound⟩, fun _ h => h⟩
  · have hsame : (file.add object).relation? = file.relation? :=
      funext fun _ => SqliteFile.relation?_add_index hkind
    exact ⟨.add (SqliteFile.own_notMem_of_index? hkind hmissing), rfl, hsame, hruns,
      ⟨hsame ▸ hrelation, SqliteFile.isSome_index?_self hkind⟩,
      fun _ => SqliteFile.isSome_index?_add⟩

/-- A statement, and what follows it. -/
theorem eval_then (act : SqliteFile → Except OpenError (Unit × SqliteFile)) {next : Opening Unit}
    (hnext : Transaction.Transactional next) (file : SqliteFile) :
    Transaction.eval (execute act >>= fun _ => next) file
      = act file >>= fun result => Transaction.eval next result.2 := by
  rw [Transaction.eval_bind (transactional_execute act) fun _ => hnext, execute,
    Transaction.eval_execute]

variable (indexForeign) in
theorem eval_createSchema (file : SqliteFile) :
    Transaction.eval (createSchema indexForeign) file
      = createTable .sessions file >>= fun result₁ => createTable .runs result₁.2 >>= fun result₂ =>
        createTable .historyItems result₂.2 >>= fun result₃ =>
          createIndex indexForeign .runsSessionId result₃.2 >>= fun result₄ =>
            createIndex indexForeign .oneActiveRunPerSession result₄.2 := by
  refine (eval_then _ ((transactional_execute _).bind fun _ =>
    (transactional_execute _).bind fun _ =>
    (transactional_execute _).bind fun _ => transactional_execute _) file).trans ?_
  refine bind_congr fun result₁ => (eval_then _ ((transactional_execute _).bind fun _ =>
    (transactional_execute _).bind fun _ => transactional_execute _) _).trans ?_
  refine bind_congr fun result₂ => (eval_then _ ((transactional_execute _).bind fun _ =>
    transactional_execute _) _).trans ?_
  refine bind_congr fun result₃ => (eval_then _ (transactional_execute _) _).trans ?_
  exact bind_congr fun result₄ => Transaction.eval_execute _ _ _

/-- The schema behind its creation, but for the version. -/
theorem createSchema_unified
    (h : Transaction.eval (createSchema indexForeign) file = .ok ((), file')) :
    Kept file file' ∧ file'.tileMeta = file.tileMeta ∧
      ∀ tileMeta, (∃ rows, tileMeta = some rows ∧
        rows.lookup schemaVersionKey = some sqliteStoreSchemaVersion) →
        Unified { file' with tileMeta } := by
  rw [eval_createSchema] at h
  obtain ⟨⟨⟨⟩, file₁⟩, h₁, h⟩ := except_bind_eq_ok.mp h
  obtain ⟨⟨⟨⟩, file₂⟩, h₂, h⟩ := except_bind_eq_ok.mp h
  obtain ⟨⟨⟨⟩, file₃⟩, h₃, h⟩ := except_bind_eq_ok.mp h
  obtain ⟨⟨⟨⟩, file₄⟩, h₄, h₅⟩ := except_bind_eq_ok.mp h
  obtain ⟨hkept₁, hmeta₁, hsessions, -⟩ := createTable_kept rfl h₁
  obtain ⟨hkept₂, hmeta₂, hruns, hmono₂⟩ := createTable_kept rfl h₂
  obtain ⟨hkept₃, hmeta₃, hhistory, hmono₃⟩ := createTable_kept rfl h₃
  obtain ⟨hkept₄, hmeta₄, hsame₄, -, hindex₄, -⟩ := createIndex_kept rfl h₄
  obtain ⟨hkept₅, hmeta₅, hsame₅, htable, hindex₅, hmono₅⟩ := createIndex_kept rfl h₅
  refine ⟨(((hkept₁.trans hkept₂).trans hkept₃).trans hkept₄).trans hkept₅,
    hmeta₅.trans (hmeta₄.trans (hmeta₃.trans (hmeta₂.trans hmeta₁))), fun tileMeta hversion => ?_⟩
  have hsame : file'.relation? = file₃.relation? := hsame₅.trans hsame₄
  refine ⟨hversion, ?_, ?_, ?_, ?_, hindex₅⟩
  · show (file'.relation? _).isSome = true
    rw [hsame]
    exact hmono₃ _ (hmono₂ _ hsessions)
  · show ∃ table, file'.relation? _ = some table ∧ _
    rwa [hsame₅]
  · show (file'.relation? _).isSome = true
    rwa [hsame]
  · exact ⟨(congrFun hsame₅ _).trans hindex₄.1, hmono₅ _ hindex₄.2⟩

/-! ### The block, by the version it reads -/

/-- The file once it has its metadata table. -/
abbrev withMeta (file : SqliteFile) : SqliteFile := { file with tileMeta := some file.metaRows }

/-- Nothing is in the way of the metadata table. -/
def MetaFree (file : SqliteFile) : Prop :=
  ¬ (file.tileMeta.isNone = true ∧ (file.index? "tile_meta").isSome = true)

variable (indexForeign) in
theorem eval_initializeBlock (hfree : MetaFree file) :
    Transaction.eval (initializeBlock indexForeign) file
      = Transaction.eval (initializeVersion indexForeign (file.metaRows.lookup schemaVersionKey))
        (withMeta file) := by
  refine (eval_then _ ((transactional_query _).bind fun version =>
    transactional_initializeVersion indexForeign version) file).trans ?_
  rw [if_neg hfree]
  refine (Transaction.eval_bind (transactional_query _) (fun version =>
    transactional_initializeVersion indexForeign version) _).trans ?_
  rw [query, Transaction.eval_query]
  rfl

theorem eval_initializeBlock_of_not (hfree : ¬ MetaFree file) :
    Transaction.eval (initializeBlock indexForeign) file = .error (.sqlite .operational) := by
  refine (eval_then _ ((transactional_query _).bind fun version =>
    transactional_initializeVersion indexForeign version) file).trans ?_
  rw [if_pos (not_not.mp hfree)]
  rfl

theorem fresh_iff :
    file.Fresh ↔ file.legacyVersionKey? = none ∧ file.existingApplicationTable? = none := by
  have hkeys : file.legacyVersionKey? = none ↔ ∀ key ∈ legacyVersionKeys,
      file.metaRows.lookup key = none := by
    rw [SqliteFile.legacyVersionKey?, List.find?_eq_none]
    simp only [List.mem_reverse, Option.not_isSome_iff_eq_none]
  have htables : file.existingApplicationTable? = none ↔ ∀ object ∈ file.objects,
      object.kind = .table → object.name ∈ ["tile_meta", "sqlite_sequence"] := by
    rw [SqliteFile.existingApplicationTable?, Option.map_eq_none_iff, List.find?_eq_none]
    refine forall₂_congr fun object _ => ?_
    rw [decide_eq_true_eq, not_and, not_not]
  exact ⟨fun h => ⟨hkeys.mpr h.keys, htables.mpr h.tables⟩,
    fun h => ⟨hkeys.mp h.1, htables.mp h.2⟩⟩

/-- The rejection reads, and no more. -/
theorem eval_reject (file : SqliteFile) :
    Transaction.eval rejectIncompatibleUnversionedSchema file
      = Transaction.eval (rejectLegacyKey file.legacyVersionKey?) file >>= fun _ =>
        Transaction.eval (rejectTable file.existingApplicationTable?) file := by
  refine (Transaction.eval_bind (transactional_query _) (fun key =>
    (transactional_rejectLegacyKey key).bind fun _ =>
      (transactional_query _).bind transactional_rejectTable) file).trans ?_
  rw [query, Transaction.eval_query]
  refine (Transaction.eval_bind (transactional_rejectLegacyKey _) (fun _ =>
      (transactional_query _).bind transactional_rejectTable) file).trans ?_
  cases file.legacyVersionKey? with
  | some key => rfl
  | none =>
    refine (Transaction.eval_bind (transactional_query _) transactional_rejectTable file).trans ?_
    rw [query, Transaction.eval_query]
    rfl

theorem eval_reject_of_fresh (h : file.Fresh) :
    Transaction.eval rejectIncompatibleUnversionedSchema file = .ok ((), file) := by
  obtain ⟨hkey, htable⟩ := fresh_iff.mp h
  rw [eval_reject, hkey, htable]
  rfl

theorem eval_reject_of_not_fresh (h : ¬ file.Fresh) :
    ∃ rejection, Transaction.eval rejectIncompatibleUnversionedSchema file
      = .error (.rejected rejection) := by
  rw [eval_reject]
  cases hkey : file.legacyVersionKey? with
  | some key => exact ⟨_, rfl⟩
  | none =>
    cases htable : file.existingApplicationTable? with
    | some table => exact ⟨_, rfl⟩
    | none => exact absurd (fresh_iff.mpr ⟨hkey, htable⟩) h

/-- **An opening on a healthy backend makes a compatible file Tile's.** -/
theorem eval_initializeBlock_eq_ok
    (h : Transaction.eval (initializeBlock indexForeign) file = .ok ((), file')) :
    file.Compatible ∧ Kept file file' ∧ Unified file' := by
  have hfree : MetaFree file := by
    by_contra hnot
    rw [eval_initializeBlock_of_not hnot] at h
    cases h
  rw [eval_initializeBlock indexForeign hfree] at h
  have hmeta : Kept file (withMeta file) := .ofMeta List.prefix_rfl
  cases hversion : file.metaRows.lookup schemaVersionKey with
  | none =>
    rw [hversion] at h
    have hfresh : (withMeta file).Fresh := by
      by_contra hstale
      obtain ⟨rejection, hreject⟩ := eval_reject_of_not_fresh hstale
      have hblock := (Transaction.eval_bind transactional_reject (fun _ =>
        (transactional_createSchema indexForeign).bind fun _ => transactional_execute _)
        (withMeta file)).symm.trans h
      rw [hreject] at hblock
      cases hblock
    have hcreate := (Transaction.eval_bind transactional_reject (fun _ =>
      (transactional_createSchema indexForeign).bind fun _ => transactional_execute _)
      (withMeta file)).symm.trans h
    rw [eval_reject_of_fresh hfresh] at hcreate
    have hwrite := (Transaction.eval_bind (transactional_createSchema indexForeign)
      (fun _ => transactional_execute _) (withMeta file)).symm.trans hcreate
    obtain ⟨⟨⟨⟩, file₁⟩, hschema, hwrite⟩ := except_bind_eq_ok.mp hwrite
    obtain ⟨hkept, htileMeta, hunified⟩ := createSchema_unified hschema
    have hrows : file₁.metaRows = file.metaRows := by rw [SqliteFile.metaRows, htileMeta]; rfl
    have hdone := (Transaction.eval_execute _ _ _).symm.trans hwrite
    rw [hrows, hversion] at hdone
    obtain rfl : _ = file' := (Prod.mk.inj (Except.ok.inj hdone)).2
    refine ⟨.inr ⟨hversion, hfresh.keys, hfresh.tables⟩, ?_, ?_⟩
    · exact (hmeta.trans hkept).trans (.ofMeta (by rw [hrows]; exact List.prefix_append _ _))
    · refine hunified _ ⟨_, rfl, ?_⟩
      rw [List.lookup_append, hversion]
      rfl
  | some version =>
    rw [hversion, initializeVersion] at h
    split at h
    · cases h
    next hsame =>
      obtain rfl : version = sqliteStoreSchemaVersion := not_not.mp hsame
      obtain ⟨hkept, htileMeta, hunified⟩ := createSchema_unified h
      refine ⟨.inl hversion, hmeta.trans hkept, ?_⟩
      exact hunified file'.tileMeta ⟨file.metaRows, htileMeta, hversion⟩

theorem eval_initializeBlock_of_unified (h : Unified file) :
    Transaction.eval (initializeBlock indexForeign) file = .ok ((), file) := by
  obtain ⟨rows, hrows, hversion⟩ := h.version
  have hfree : MetaFree file := fun hmissing => by simp [hrows] at hmissing
  have hmetaRows : file.metaRows = rows := by rw [SqliteFile.metaRows, hrows]; rfl
  have hmeta : withMeta file = file := by
    rw [withMeta, hmetaRows, ← hrows]
  rw [eval_initializeBlock indexForeign hfree, hmetaRows, hversion, hmeta, initializeVersion,
    if_neg (not_not.mpr rfl), eval_createSchema]
  obtain ⟨table, htable, hkind⟩ := h.runs
  have hruns : (file.relation? TileObject.runs.name).isSome = true := by
    rw [htable]
    rfl
  exact except_bind_eq_ok.mpr ⟨_, createTable_of_isSome h.sessions,
    except_bind_eq_ok.mpr ⟨_, createTable_of_isSome hruns,
      except_bind_eq_ok.mpr ⟨_, createTable_of_isSome h.historyItems,
        except_bind_eq_ok.mpr ⟨_, createIndex_of_isSome htable hkind h.runsSessionId,
          createIndex_of_isSome htable hkind h.oneActiveRunPerSession⟩⟩⟩⟩

theorem eval_initializeBlock_of_incompatible (hfree : MetaFree file) (h : ¬ file.Compatible) :
    ∃ rejection, Transaction.eval (initializeBlock indexForeign) file
      = .error (.rejected rejection) := by
  rw [eval_initializeBlock indexForeign hfree]
  cases hversion : file.metaRows.lookup schemaVersionKey with
  | none =>
    have hstale : ¬ (withMeta file).Fresh :=
      fun hfresh => h (.inr ⟨hversion, ⟨hfresh.keys, hfresh.tables⟩⟩)
    obtain ⟨rejection, hreject⟩ := eval_reject_of_not_fresh hstale
    refine ⟨rejection, (Transaction.eval_bind transactional_reject (fun _ =>
      (transactional_createSchema indexForeign).bind fun _ => transactional_execute _) _).trans ?_⟩
    rw [hreject]
    rfl
  | some version =>
    have hother : version ≠ sqliteStoreSchemaVersion :=
      fun heq => h (.inl (hversion.trans (congrArg some heq)))
    rw [initializeVersion, if_pos hother]
    exact ⟨_, rfl⟩

end Opening

/-! ## Whole openings -/

section Openings

variable (indexForeign : SchemaObject → TileObject → Except SqlError Unit)

/-- How an opening of the file ends, and what it leaves committed. -/
def SqliteFile.opened (faults : List Bool) (file : SqliteFile) :
    Except OpenError Unit × SqliteFile :=
  ((Opening.openStore indexForeign { committed := file, faults }).1,
    (Opening.openStore indexForeign { committed := file, faults }).2.committed)

/-- An opening fails and changes nothing, or does what it does on a healthy backend. -/
theorem SqliteFile.opened_cases (faults : List Bool) (file : SqliteFile) :
    (∃ error, file.opened indexForeign faults = (.error error, file)) ∨
    ∃ file', file.opened indexForeign faults = (.ok (), file') ∧
      Transaction.eval (Opening.initializeBlock indexForeign) file = .ok ((), file') := by
  unfold opened
  rcases Transaction.tick_cases Opening.fault { committed := file, faults } with
    ⟨faults₁, h₁⟩ | ⟨faults₁, h₁, -⟩
  · rw [Opening.openStore, Effect.bind_of_error h₁]
    exact .inl ⟨_, rfl⟩
  · rw [Opening.openStore, Effect.bind_of_ok h₁]
    rcases Transaction.tick_cases Opening.fault { committed := file, faults := faults₁ } with
      ⟨faults₂, h₂⟩ | ⟨faults₂, h₂, -⟩
    · rw [Effect.bind_of_error h₂]
      exact .inl ⟨_, rfl⟩
    · rw [Effect.bind_of_ok h₂, Opening.initializeSqliteSchema]
      rcases Transaction.immediate_cases Opening.fault
        (s := { committed := file, faults := faults₂ })
        (Opening.transactional_initializeBlock indexForeign) rfl with
        ⟨error, s', h₃, hkept, -⟩ | ⟨⟨⟩, s', h₃, -, heval⟩
      · rw [h₃]
        exact .inl ⟨error, Prod.ext rfl hkept⟩
      · rw [h₃]
        exact .inr ⟨s'.committed, rfl, heval⟩

theorem SqliteFile.opened_healthy (file : SqliteFile) :
    (file.opened indexForeign []).1
      = (Transaction.eval (Opening.initializeBlock indexForeign) file).map (·.1) :=
  Transaction.immediate_healthy Opening.fault (Opening.transactional_initializeBlock indexForeign)
    file

/-- Opening a file that is Tile's changes nothing. -/
theorem Unified.opened {file : SqliteFile} (h : Unified file) (faults : List Bool) :
    (file.opened indexForeign faults).2 = file ∧ (file.opened indexForeign []).1 = .ok () := by
  have heval : Transaction.eval (Opening.initializeBlock indexForeign) file = .ok ((), file) :=
    Opening.eval_initializeBlock_of_unified h
  refine ⟨?_, by rw [SqliteFile.opened_healthy, heval]; rfl⟩
  rcases file.opened_cases indexForeign faults with ⟨error, hopened⟩ | ⟨file', hopened, hdone⟩
  · rw [hopened]
  · rw [hopened]
    exact (Prod.mk.inj (Except.ok.inj (hdone.symm.trans heval))).2

/-- **An opening is all or nothing.**  However the backend behaves, a file that is not opened is
left as it was.  A file that is opened was Tile's or fresh, keeps everything it had, and is opened
again, by anyone, without a change.  Any other file is rejected. -/
theorem opening (faults : List Bool) (file : SqliteFile) :
    (∀ error, (file.opened indexForeign faults).1 = .error error →
      (file.opened indexForeign faults).2 = file) ∧
    ((file.opened indexForeign faults).1 = .ok () →
      file.Compatible ∧ Kept file (file.opened indexForeign faults).2 ∧
        ∀ indexForeign', (file.opened indexForeign faults).2.opened indexForeign' []
          = (.ok (), (file.opened indexForeign faults).2)) ∧
    (Opening.MetaFree file → ¬ file.Compatible →
      ∃ rejection, file.opened indexForeign [] = (.error (.rejected rejection), file)) := by
  refine ⟨fun error herror => ?_, fun hok => ?_, fun hfree hincompatible => ?_⟩
  · rcases file.opened_cases indexForeign faults with ⟨error', hopened⟩ | ⟨file', hopened, -⟩
    · rw [hopened]
    · rw [hopened] at herror
      cases herror
  · rcases file.opened_cases indexForeign faults with ⟨error', hopened⟩ | ⟨file', hopened, heval⟩
    · rw [hopened] at hok
      cases hok
    · rw [hopened]
      obtain ⟨hcompatible, hkept, hunified⟩ := Opening.eval_initializeBlock_eq_ok heval
      refine ⟨hcompatible, hkept, fun indexForeign' => ?_⟩
      obtain ⟨hsame, hagain⟩ := hunified.opened indexForeign' []
      exact Prod.ext hagain hsame
  · obtain ⟨rejection, hreject⟩ : ∃ rejection,
        Transaction.eval (Opening.initializeBlock indexForeign) file
          = .error (.rejected rejection) :=
      Opening.eval_initializeBlock_of_incompatible hfree hincompatible
    have hresult := file.opened_healthy indexForeign
    rw [hreject] at hresult
    rcases file.opened_cases indexForeign [] with ⟨error', hopened⟩ | ⟨file', hopened, heval⟩
    · rw [hopened] at hresult
      exact ⟨rejection, hopened.trans (Prod.ext hresult rfl)⟩
    · rw [hreject] at heval
      cases heval

end Openings

/-! ## A file over time -/

/-- The file that opening an empty one leaves. -/
def unifiedFile : SqliteFile where
  tileMeta := some [(schemaVersionKey, sqliteStoreSchemaVersion)]
  objects := [.own .sessions, .own .runs, .own .historyItems, .own .runsSessionId,
    .own .oneActiveRunPerSession]

theorem eval_initializeBlock_empty
    (indexForeign : SchemaObject → TileObject → Except SqlError Unit) :
    Transaction.eval (Opening.initializeBlock indexForeign) {} = .ok ((), unifiedFile) := by
  with_unfolding_all rfl

theorem Unified.of_catalog {file : SqliteFile} (htileMeta : file.tileMeta = unifiedFile.tileMeta)
    (hobjects : file.objects = unifiedFile.objects) : Unified file := by
  obtain ⟨-, -, h⟩ := Opening.eval_initializeBlock_eq_ok
    (eval_initializeBlock_empty fun _ _ => .ok ())
  have hrelation : file.relation? = unifiedFile.relation? := by
    funext name
    rw [SqliteFile.relation?, hobjects]
    rfl
  have hindex : file.index? = unifiedFile.index? := by
    funext name
    rw [SqliteFile.index?, hobjects]
    rfl
  constructor
  · rw [htileMeta]
    exact h.version
  · rw [hrelation]
    exact h.sessions
  · rw [hrelation]
    exact h.runs
  · rw [hrelation]
    exact h.historyItems
  · rw [hrelation, hindex]
    exact h.runsSessionId
  · rw [hrelation, hindex]
    exact h.oneActiveRunPerSession

/-- An opening of the file by some process, or a call on a store that opened it. -/
inductive FileEvent where
  | opened (faults : List Bool) (result : Except OpenError Unit)
  | call (event : StoreEvent)

def FileEvent.call? : FileEvent → Option StoreEvent
  | .opened _ _ => none
  | .call event => some event

/-- The opening made a store. -/
def FileEvent.opens : FileEvent → Bool
  | .opened _ (.ok _) => true
  | .opened _ (.error _) | .call _ => false

/-- There is no call without a store. -/
def CallsBehindOpenings (events : List FileEvent) : Prop :=
  ∀ before event after, events = before ++ .call event :: after → before.any (·.opens) = true

theorem calls_opened (events : List FileEvent) (faults : List Bool)
    (result : Except OpenError Unit) :
    (events ++ [FileEvent.opened faults result]).filterMap (·.call?)
      = events.filterMap (·.call?) := by
  rw [List.filterMap_append]
  exact List.append_nil _

theorem opens_snoc {events : List FileEvent} (h : events.any (·.opens) = true)
    (event : FileEvent) : (events ++ [event]).any (·.opens) = true := by
  rw [List.any_append, h, Bool.true_or]

section History

variable [JsonParser] (indexForeign : SchemaObject → TileObject → Except SqlError Unit)

/-- A call acts on the rows alone. -/
def FileEvent.Steps (file : SqliteFile) : FileEvent → SqliteFile → Prop
  | .opened faults result, file' => file.opened indexForeign faults = (result, file')
  | .call event, file' => event.Steps file.database file'.database ∧
    file'.tileMeta = file.tileMeta ∧ file'.objects = file.objects

/-- Not opened yet, the file is empty; then it has Tile's catalog, and rows the calls led to. -/
inductive Historic (events : List FileEvent) (file : SqliteFile) : Prop where
  | empty (hopens : events.any (·.opens) = false) (hcalls : events.filterMap (·.call?) = [])
      (hfile : file = {})
  | unified (hopens : events.any (·.opens) = true)
      (htileMeta : file.tileMeta = unifiedFile.tileMeta)
      (hobjects : file.objects = unifiedFile.objects)
      (htrace : Trace {} (events.filterMap (·.call?)) file.database)

theorem Historic.step {events : List FileEvent} {event : FileEvent} {file file' : SqliteFile}
    (h : Historic events file) (hcalls : CallsBehindOpenings (events ++ [event]))
    (hstep : FileEvent.Steps indexForeign file event file') :
    Historic (events ++ [event]) file' := by
  cases event with
  | opened faults result =>
    rcases file.opened_cases indexForeign faults with ⟨error, hopened⟩ | ⟨file₁, hopened, heval⟩
    · obtain ⟨rfl, rfl⟩ := Prod.mk.inj (hopened.symm.trans hstep)
      cases h with
      | empty hopens hnone hfile =>
        exact .empty (by rw [List.any_append, hopens]; rfl) (by rw [calls_opened, hnone]) hfile
      | unified hopens htileMeta hobjects htrace =>
        exact .unified (opens_snoc hopens _) htileMeta hobjects
          (by rwa [calls_opened])
    · obtain ⟨rfl, rfl⟩ := Prod.mk.inj (hopened.symm.trans hstep)
      cases h with
      | empty hopens hnone hfile =>
        subst hfile
        rw [eval_initializeBlock_empty] at heval
        obtain rfl : unifiedFile = file₁ := (Prod.mk.inj (Except.ok.inj heval)).2
        refine .unified (by rw [List.any_append, hopens]; rfl) rfl rfl ?_
        rw [calls_opened, hnone]
        exact Run.nil _
      | unified hopens htileMeta hobjects htrace =>
        have hunified := Unified.of_catalog htileMeta hobjects
        rw [Opening.eval_initializeBlock_of_unified hunified] at heval
        obtain rfl : file = file₁ := (Prod.mk.inj (Except.ok.inj heval)).2
        exact .unified (opens_snoc hopens _) htileMeta hobjects
          (by rwa [calls_opened])
  | call event =>
    obtain ⟨hcall, htileMeta', hobjects'⟩ := hstep
    have hbehind := hcalls events event [] rfl
    cases h with
    | empty hopens hnone hfile => simp [hopens] at hbehind
    | unified hopens htileMeta hobjects htrace =>
      refine .unified (opens_snoc hopens _) (htileMeta'.trans htileMeta)
        (hobjects'.trans hobjects) ?_
      rw [List.filterMap_append]
      exact htrace.snoc hcall

theorem historic {events : List FileEvent} : ∀ {file : SqliteFile},
    Run (FileEvent.Steps indexForeign) {} events file → CallsBehindOpenings events →
      Historic events file := by
  induction events using List.reverseRecOn with
  | nil =>
    intro file h _
    obtain rfl := h.of_nil
    exact .empty rfl rfl rfl
  | append_singleton events event ih =>
    intro file h hcalls
    obtain ⟨file₁, hrun, hstep⟩ := h.of_snoc
    refine (ih hrun fun before call after hevents => ?_).step indexForeign hcalls hstep
    exact hcalls before call (after ++ [event]) (by rw [hevents]; simp)

/-- **The history of a file that started empty.**  Any number of processes open it and call the
stores they have, on a backend that may fail at any statement.  Until an opening succeeds the file
stays empty.  From then on it has Tile's schema, its rows are those a sequence of calls leads to
from the empty database, and it is opened again without a change. -/
theorem file_history {events : List FileEvent} {file : SqliteFile}
    (h : Run (FileEvent.Steps indexForeign) {} events file)
    (hcalls : CallsBehindOpenings events) :
    Trace {} (events.filterMap (·.call?)) file.database ∧
    (events.any (·.opens) = false → file = {}) ∧
    (events.any (·.opens) = true →
      file.tileMeta = unifiedFile.tileMeta ∧ file.objects = unifiedFile.objects ∧
        file.opened indexForeign [] = (.ok (), file)) := by
  rcases historic indexForeign h hcalls with
    ⟨hopens, hnone, rfl⟩ | ⟨hopens, htileMeta, hobjects, htrace⟩
  · rw [hnone]
    exact ⟨Run.nil _, fun _ => rfl, fun h => by simp [hopens] at h⟩
  · obtain ⟨hsame, hagain⟩ := (Unified.of_catalog htileMeta hobjects).opened indexForeign []
    exact ⟨htrace, fun h => by simp [hopens] at h,
      fun _ => ⟨htileMeta, hobjects, Prod.ext hagain hsame⟩⟩

end History

/-- A file whose first opening finds the database locked, and its first session. -/
theorem file_history_session : ∃ (events : List FileEvent) (file : SqliteFile),
    events.length = 3 ∧ file.database.sessions.length = 1 ∧
      Trace {} (events.filterMap (·.call?)) file.database ∧
      file.opened (fun _ _ => .ok ()) [] = (.ok (), file) := by
  let call : StoreEvent := ⟨.createSession "s", { now := 3, uuid := fun _ => "h" },
    ((Call.createSession "s").run { now := 3, uuid := fun _ => "h" } {}).1⟩
  let file : SqliteFile := { unifiedFile with
    database := ((Call.createSession "s").run { now := 3, uuid := fun _ => "h" } {}).2 }
  have hopened : ({} : SqliteFile).opened (fun _ _ => .ok ()) [] = (.ok (), unifiedFile) := by
    with_unfolding_all rfl
  have hrun : Run (FileEvent.Steps fun _ _ => .ok ()) {}
      [.opened [false, false, true] (.error Opening.fault), .opened [] (.ok ()), .call call] file :=
    .cons rfl (.cons hopened (.single ⟨rfl, rfl, rfl⟩))
  have hcalls : CallsBehindOpenings
      [.opened [false, false, true] (.error Opening.fault), .opened [] (.ok ()), .call call] := by
    intro before event after hevents
    rcases before with _ | ⟨first, _ | ⟨second, rest⟩⟩
    · simp at hevents
    · simp at hevents
    · obtain ⟨-, rfl, -⟩ : _ ∧ .opened [] (.ok ()) = second ∧ _ := by simpa using hevents
      simp [FileEvent.opens]
  obtain ⟨htrace, -, hlast⟩ := file_history (fun _ _ => .ok ()) hrun hcalls
  exact ⟨_, file, rfl, by decide +kernel, htrace, (hlast rfl).2.2⟩

end Tile
