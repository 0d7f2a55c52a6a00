import Tile.Library.Run
import Tile.Store.Invariant

/-!
# Store/Lifecycle — a run ends once, and stays as it ended

A trace is any sequence of calls, by any number of store instances, with whatever each was replied.
**Run lifecycle safety** (`run_lifecycle`): in every reachable database a session has at most one
active run; a run ends at most once, by the one call that returns its terminal record; and its row
never changes afterwards.
-/

namespace Tile

/-! ## Runs in a database -/

namespace Database

/-- The run is in the database and has not ended. -/
def Active (db : Database) (runId : String) : Prop :=
  ∃ row ∈ db.runs, row.id = runId ∧ row.status = .active

/-- The run is in the database and has ended. -/
def Ended (db : Database) (runId : String) : Prop :=
  ∃ row ∈ db.runs, row.id = runId ∧ row.status ≠ .active

theorem Valid.not_active_of_ended {db : Database} (hv : db.Valid) {runId : String}
    (h : db.Ended runId) : ¬ db.Active runId := by
  obtain ⟨row, hrow, hid, hended⟩ := h
  rintro ⟨row', hrow', hid', hactive⟩
  exact hended (hv.run_unique hrow hrow' (hid.trans hid'.symm) ▸ hactive)

/-- What may happen to the runs of a database: rows are only added, keep who they are, and are
final once they ended. -/
def Evolves (db db' : Database) : Prop :=
  ∀ row ∈ db.runs, ∃ row' ∈ db'.runs, row'.base = row.base ∧ (row.status ≠ .active → row' = row)

theorem Evolves.refl (db : Database) : db.Evolves db :=
  fun row hrow => ⟨row, hrow, rfl, fun _ => rfl⟩

theorem Evolves.trans {db db' db'' : Database} (h : db.Evolves db') (h' : db'.Evolves db'') :
    db.Evolves db'' := by
  intro row hrow
  obtain ⟨row₁, hrow₁, hbase₁, hkeep₁⟩ := h row hrow
  obtain ⟨row₂, hrow₂, hbase₂, hkeep₂⟩ := h' row₁ hrow₁
  refine ⟨row₂, hrow₂, hbase₂.trans hbase₁, fun hended => ?_⟩
  obtain rfl := hkeep₁ hended
  exact hkeep₂ hended

theorem Evolves.ended {db db' : Database} (h : db.Evolves db') {runId : String}
    (hended : db.Ended runId) : db'.Ended runId := by
  obtain ⟨row, hrow, hid, hstatus⟩ := hended
  obtain ⟨row', hrow', -, hkeep⟩ := h row hrow
  obtain rfl := hkeep hstatus
  exact ⟨row', hrow', hid, hstatus⟩

theorem evolves_finalized (db : Database) (uuid : Nat → String) (record : TerminalRun)
    (outcomeJson : Json) (delta : List ConversationItem) (updatedAt : Timestamp) :
    db.Evolves (finalizedDatabase uuid record outcomeJson delta updatedAt db) := fun _ hrow =>
  ⟨_, List.mem_map_of_mem hrow, finishedRow_base _, finishedRow_of_ended⟩

end Database

theorem length_le_one_of_nodup {α : Type} :
    ∀ {items : List α}, items.Nodup → (∀ a ∈ items, ∀ b ∈ items, a = b) → items.length ≤ 1
  | [], _, _ | [_], _, _ => by simp
  | a :: b :: rest, hnodup, hsame => by
    obtain rfl := hsame a (by simp) b (by simp)
    simp at hnodup

theorem Database.Valid.activeRuns_length {db : Database} (hv : db.Valid) (sessionId : String) :
    (db.runs.filter fun row => row.sessionId = sessionId ∧ row.status = .active).length ≤ 1 := by
  refine length_le_one_of_nodup ((List.Nodup.of_map _ hv.runs_nodup).filter _) ?_
  intro row hrow row' hrow'
  rw [List.mem_filter, decide_eq_true_iff] at hrow hrow'
  obtain ⟨hrow, hsession, hactive⟩ := hrow
  obtain ⟨hrow', hsession', hactive'⟩ := hrow'
  exact hv.one_active row hrow row' hrow' hactive hactive' (hsession.trans hsession'.symm)

/-! ## The end of a run -/

/-- One call on the shared database, and how it ended. -/
structure StoreEvent where
  call : Call
  ambient : Ambient
  reply : Except PyError Reply

/-- The terminal record a `finish_run` or `abort_active_run` call returned. -/
def Call.ended? : Call → Except PyError Reply → Option TerminalRun
  | .finishRun _ _ _ _, .ok (.finished run) => some run
  | .abortActiveRun _, .ok (.aborted run) => run
  | _, _ => none

def StoreEvent.ended? (event : StoreEvent) : Option TerminalRun := event.call.ended? event.reply

/-- The call returned the terminal record of this run. -/
def StoreEvent.Ends (runId : String) (event : StoreEvent) : Bool :=
  event.ended?.any (·.id = runId)

/-- The row stores this terminal record. -/
def RunRow.Stores (row : RunRow) (run : TerminalRun) : Prop :=
  row.base = run.toRunBase ∧ row.status = run.status ∧ row.endedAt = some run.endedAt ∧
    row.outcomeJson = dumpOutcome run.outcome

theorem RunRow.Stores.ended {row : RunRow} {run : TerminalRun} (h : row.Stores run) :
    row.status ≠ .active := h.2.1 ▸ terminalStatusFor_ne_active run.outcome

section Finalized

variable {db db' : Database} {row : RunRow} {ambient : Ambient} {outcome : RunOutcome}
  {outcomeJson : Json} {delta : List ConversationItem} {updatedAt : Timestamp}

theorem finalizedDatabase_stores (hrow : row ∈ db.runs) (hactive : row.status = .active)
    (hdump : dumpOutcome outcome = some outcomeJson)
    (hdb' : finalizedDatabase ambient.uuid (terminalRunRecord ambient.now row.activeRun outcome)
      outcomeJson delta updatedAt db = db') :
    ∃ row' ∈ db'.runs, row'.Stores (terminalRunRecord ambient.now row.activeRun outcome) := by
  obtain rfl := hdb'
  refine ⟨_, List.mem_map_of_mem hrow, ?_⟩
  have hmatch := Database.finishedRow_of_match (terminalStatusFor outcome)
    (max ambient.now row.startedAt) outcomeJson hactive
  exact hmatch ▸ ⟨rfl, rfl, rfl, hdump.symm⟩

/-- A terminal update ends the run it names and no other. -/
theorem ended_finalizedDatabase (hrow : row ∈ db.runs) (hactive : row.status = .active)
    (hdump : dumpOutcome outcome = some outcomeJson) (hv' : db'.Valid)
    (hdb' : finalizedDatabase ambient.uuid (terminalRunRecord ambient.now row.activeRun outcome)
      outcomeJson delta updatedAt db = db') (runId : String) :
    row.id = runId ↔ db.Active runId ∧ db'.Ended runId := by
  constructor
  · rintro rfl
    obtain ⟨row', hrow', hstores⟩ := finalizedDatabase_stores hrow hactive hdump hdb'
    exact ⟨⟨row, hrow, rfl, hactive⟩,
      ⟨row', hrow', congrArg RunBase.id hstores.1, hstores.ended⟩⟩
  · rintro ⟨⟨other, hother, hid, hstatus⟩, hended⟩
    by_contra hne
    refine hv'.not_active_of_ended hended ⟨other, ?_, hid, hstatus⟩
    rw [← hdb']
    exact List.mem_map.mpr
      ⟨other, hother, Database.finishedRow_of_ne fun h => hne (h.symm.trans hid)⟩

end Finalized

/-- How many calls returned the record of this run. -/
def endings (runId : String) (events : List StoreEvent) : Nat := events.countP (·.Ends runId)

section Parser

variable [JsonParser]

/-! ## Traces -/

def StoreEvent.Steps (db : Database) (event : StoreEvent) (db' : Database) : Prop :=
  event.call.run event.ambient db = (event.reply, db')

/-- The events, in the order they committed, lead from one database to the other. -/
abbrev Trace (db : Database) (events : List StoreEvent) (db' : Database) : Prop :=
  Run StoreEvent.Steps db events db'

theorem StoreEvent.Steps.change {db db' : Database} {event : StoreEvent}
    (h : event.Steps db db') : Change event.ambient db event.call event.reply db' := by
  have hchange := event.call.run_change event.ambient db
  rwa [show event.call.run event.ambient db = _ from h] at hchange

theorem Trace.valid {db db' : Database} {events : List StoreEvent} (h : Trace db events db')
    (hv : db.Valid) : db'.Valid :=
  h.invariant (fun hstep hv => hv.change hstep.change) hv

theorem Trace.valid_of_empty {db : Database} {events : List StoreEvent}
    (h : Trace {} events db) : db.Valid := h.valid .empty

/-- The events of some calls, made one after the other, and the database they lead to. -/
def play (db : Database) : List (Call × Ambient) → List StoreEvent × Database
  | [] => ([], db)
  | (call, ambient) :: rest =>
    let (reply, db') := call.run ambient db
    let (events, final) := play db' rest
    (⟨call, ambient, reply⟩ :: events, final)

theorem trace_play : ∀ (calls : List (Call × Ambient)) (db : Database),
    Trace db (play db calls).1 (play db calls).2
  | [], db => .nil db
  | _ :: rest, _ => .cons rfl (trace_play rest _)

theorem play_calls : ∀ (calls : List (Call × Ambient)) (db : Database),
    (play db calls).1.map (·.call) = calls.map Prod.fst
  | [], _ => rfl
  | (call, _) :: rest, _ => congrArg (call :: ·) (play_calls rest _)

theorem Change.evolves {ambient : Ambient} {db db' : Database} {call : Call}
    {reply : Except PyError Reply} (h : Change ambient db call reply db') : db.Evolves db' := by
  cases h with
  | failed | read _ | idle _ | created _ | forked _ _ _ => exact .refl db
  | started _ _ _ _ => exact fun row hrow => ⟨row, List.mem_append_left _ hrow, rfl, fun _ => rfl⟩
  | finished _ _ _ _ | aborted _ _ _ _ => exact db.evolves_finalized _ _ _ _ _

theorem Trace.evolves {db db' : Database} {events : List StoreEvent} (h : Trace db events db') :
    db.Evolves db' :=
  h.relates (P := fun _ => True) (fun _ _ => trivial) (fun hstep _ => hstep.change.evolves)
    Database.Evolves.refl Database.Evolves.trans trivial

/-! ## The event that ends a run -/

/-- A call finalizes one active run and returns its record, or ends no run. -/
theorem Change.finalizes {ambient : Ambient} {db db' : Database} {call : Call}
    {reply : Except PyError Reply} (h : Change ambient db call reply db') :
    (call.ended? reply = none ∧ ∀ row ∈ db'.runs, row ∈ db.runs ∨ row.status = .active) ∨
      ∃ row outcome outcomeJson delta updatedAt, row ∈ db.runs ∧ row.status = .active ∧
        dumpOutcome outcome = some outcomeJson ∧
        call.ended? reply = some (terminalRunRecord ambient.now row.activeRun outcome) ∧
        finalizedDatabase ambient.uuid (terminalRunRecord ambient.now row.activeRun outcome)
          outcomeJson delta updatedAt db = db' := by
  cases h with
  | failed => exact .inl ⟨by cases call <;> rfl, fun row hrow => .inl hrow⟩
  | read hreads =>
    refine .inl ⟨?_, fun row hrow => .inl hrow⟩
    match call, hreads with
    | .getSession _, _ | .listSessions, _ | .getHistory _, _ | .getRun _ _, _ | .listRuns _, _ =>
      rfl
  | idle _ | created _ | forked _ _ _ => exact .inl ⟨rfl, fun row hrow => .inl hrow⟩
  | started _ _ _ _ =>
    refine .inl ⟨rfl, fun row hrow => ?_⟩
    rcases List.mem_append.mp hrow with hrow | hrow
    · exact .inl hrow
    · exact .inr (List.mem_singleton.mp hrow ▸ rfl)
  | finished hrow hactive hdump _ => exact .inr ⟨_, _, _, _, _, hrow, hactive, hdump, rfl, rfl⟩
  | aborted hrow hactive hdump _ => exact .inr ⟨_, _, _, _, _, hrow, hactive, hdump, rfl, rfl⟩

/-- **The event that ends a run**: it returns the run's record exactly when it moves the run from
active to terminal. -/
theorem StoreEvent.Steps.ends_iff {db db' : Database} {event : StoreEvent}
    (h : event.Steps db db') (hv : db.Valid) (runId : String) :
    event.Ends runId ↔ db.Active runId ∧ db'.Ended runId := by
  have hv' := hv.change h.change
  rcases h.change.finalizes with ⟨hnone, hrows⟩ |
    ⟨row, outcome, outcomeJson, delta, updatedAt, hrow, hactive, hdump, hended, hdb'⟩
  · refine iff_of_false (by simp [Ends, ended?, hnone]) ?_
    rintro ⟨hactive, row, hrow, hid, hended⟩
    exact hv.not_active_of_ended ⟨row, (hrows row hrow).resolve_right hended, hid, hended⟩ hactive
  · rw [← ended_finalizedDatabase hrow hactive hdump hv' hdb' runId]
    simp only [Ends, ended?, hended, Option.any_some, terminalRunRecord_id, RunRow.activeRun_id]
    exact decide_eq_true_iff

/-- …and then the database stores that record. -/
theorem StoreEvent.Steps.stores {db db' : Database} {event : StoreEvent} (h : event.Steps db db')
    {run : TerminalRun} (hrun : event.ended? = some run) : ∃ row ∈ db'.runs, row.Stores run := by
  rcases h.change.finalizes with ⟨hnone, -⟩ | ⟨row, outcome, outcomeJson, delta, updatedAt, hrow,
    hactive, hdump, hended, hdb'⟩
  · exact absurd (hnone.symm.trans hrun) (by simp)
  · obtain rfl : _ = run := Option.some.inj (hended.symm.trans hrun)
    exact finalizedDatabase_stores hrow hactive hdump hdb'

theorem StoreEvent.Steps.ended_iff {db db' : Database} {event : StoreEvent}
    (h : event.Steps db db') (hv : db.Valid) (runId : String) :
    db'.Ended runId ↔ db.Ended runId ∨ event.Ends runId := by
  refine ⟨?_, fun hor => hor.elim h.change.evolves.ended fun he => ((h.ends_iff hv runId).mp he).2⟩
  rintro ⟨row', hrow', rfl, hended'⟩
  rcases h.change.finalizes with ⟨-, hrows⟩ | ⟨row, outcome, outcomeJson, delta, updatedAt, -, -, -,
    hended, rfl⟩
  · exact .inl ⟨row', (hrows row' hrow').resolve_right hended', rfl, hended'⟩
  · obtain ⟨old, hold, rfl⟩ := List.mem_map.mp hrow'
    rw [Database.finishedRow_id]
    by_cases hsame : old.id = row.id
    · exact .inr (by simp [Ends, ended?, hended, hsame])
    · simp only [terminalRunRecord_id, RunRow.activeRun_id] at hended'
      rw [Database.finishedRow_of_ne hsame] at hended'
      exact .inl ⟨old, hold, rfl, hended'⟩

/-! ## A run ends once -/

/-- **From an empty database, a run ended as often as its record was returned**: not at all while
it is unknown or active, and once from then on. -/
theorem Trace.endings_eq {db : Database} {events : List StoreEvent} (h : Trace {} events db)
    (runId : String) :
    endings runId events ≤ 1 ∧ (endings runId events = 1 ↔ db.Ended runId) := by
  refine h.snocInduction (motive := fun events db =>
    endings runId events ≤ 1 ∧ (endings runId events = 1 ↔ db.Ended runId)) ?_ ?_
  · simp [endings, Database.Ended]
  · rintro events db event db' htrace hstep ⟨hle, hiff⟩
    have hv := Trace.valid_of_empty htrace
    rw [hstep.ended_iff hv, ← hiff]
    have hsplit : endings runId (events ++ [event])
        = endings runId events + if event.Ends runId then 1 else 0 := by
      simp [endings, List.countP_append, List.countP_singleton]
    rw [hsplit]
    by_cases he : event.Ends runId
    · have hactive := ((hstep.ends_iff hv runId).mp he).1
      have hnone : endings runId events ≠ 1 := fun hone =>
        hv.not_active_of_ended (hiff.mp hone) hactive
      simp only [he, if_true, or_true, iff_true]
      omega
    · simp [he, hle]

/-! ## Lifecycle safety -/

theorem RunRow.terminal_of_ended {row : RunRow} (h : row.Written) (hlegible : row.Legible)
    (hended : row.status ≠ .active) : ∃ run, runFromRow row = .ok (.terminal run) :=
  let ⟨run, hrun, _⟩ := runFromRow_of_terminal h hlegible hended
  ⟨run, hrun⟩

theorem Trace.legible {db : Database} {events : List StoreEvent} (h : Trace {} events db)
    (hlegible : ∀ event ∈ events, event.call.Legible) : db.Legible := by
  refine h.snocInduction (motive := fun events db =>
    (∀ event ∈ events, event.call.Legible) → db.Legible) (fun _ => .empty) ?_ hlegible
  intro events db event db' htrace hstep ih hlegible
  exact (ih fun other hother => hlegible other (List.mem_append_left _ hother)).change
    (Trace.valid_of_empty htrace) hstep.change (hlegible event (by simp))

/-- **Finishing a terminal run raises as documented exactly when its outcome is legible.** -/
theorem Database.Valid.finishRun_raises_iff {db : Database} (hv : db.Valid) {row : RunRow}
    (hrow : row ∈ db.runs) (hended : row.status ≠ .active) (outcome : RunOutcome)
    (delta : List ConversationItem) (ambient : Ambient) :
    (Call.finishRun row.sessionId row.id outcome delta).Raises ambient db
      (.store (.runAlreadyEnded row.id)) ↔ row.Legible := by
  refine ⟨fun h => ?_, fun h => ?_⟩
  · by_contra hrefused
    have herror := runFromRow_of_not_legible (hv.run_written row hrow) hended hrefused
    have hraises :=
      (finishRun_raises_of_unreadable (hv.run?_eq hrow) herror outcome delta ambient).healthy
    simp [h.healthy] at hraises
  · obtain ⟨run, hrun⟩ := RunRow.terminal_of_ended (hv.run_written row hrow) h hended
    exact finishRun_raises_of_terminal (hv.run?_eq hrow) hrun outcome delta ambient

end Parser

/-- A run that is finished, then aborted and finished again. -/
def finishedTwice : List (Call × Ambient) :=
  [(.createSession "s", ⟨1, fun _ => "h", []⟩),
    (.startRun "s" "r" "prompt" "model" "provider", ⟨2, fun _ => "h", []⟩),
    (.finishRun "s" "r" (.completed (.text "done")) [.user { content := "prompt" }],
      ⟨3, fun _ => "h", []⟩),
    (.abortActiveRun "s", ⟨4, fun _ => "h", []⟩),
    (.finishRun "s" "r" (.aborted .cancelled) [], ⟨5, fun _ => "h", []⟩)]

/-- A run that is finished with a result deeper than Pydantic's parser reads. -/
def deepOutcome : List (Call × Ambient) :=
  [(.createSession "s", ⟨1, fun _ => "h", []⟩),
    (.startRun "s" "r" "prompt" "model" "provider", ⟨2, fun _ => "h", []⟩),
    (.finishRun "s" "r" (.completed (.object [("a", .nested 219)])) [], ⟨3, fun _ => "h", []⟩)]

/-- A run that leaves `deepTurn` in the history. -/
def deepHistory : List (Call × Ambient) :=
  [(.createSession "s", ⟨1, fun _ => "h", []⟩),
    (.startRun "s" "r" "prompt" "model" "provider", ⟨2, fun _ => "h", []⟩),
    (.finishRun "s" "r" (.completed (.text "done")) [deepTurn], ⟨3, fun _ => "h", []⟩)]

end Tile
