import Tile.Library.BranchingLog
import Tile.Store.Lifecycle

/-!
# Store/Ledger — committed history is a branching append-only log

Read without row ids, the histories of all sessions are a family of append-only logs: a successful
`finish_run` appends its delta to one of them, a successful `fork_session` branches one off another,
and no other call writes any.  `Change.ledger_eq` is this refinement, step by step; from it follow
**what a session's history holds** and that it only grows (`history_ledger`).
-/

namespace Tile

/-! ## The abstract log of a session -/

/-- What a history item records, whichever session it is stored under. -/
structure Entry where
  runId : String
  item : ConversationItem
  createdAt : Timestamp
  deriving DecidableEq

def HistoryItem.entry (item : HistoryItem) : Entry where
  runId := item.runId
  item := item.item
  createdAt := item.createdAt

/-- What a fork keeps of an item: all but its id and its session. -/
def HistoryItem.kept (item : HistoryItem) : Nat × Entry := (item.position, item.entry)

/-- The operation a call performed on the logs. -/
def Call.op : Call → Except PyError Reply → LogOp String Entry
  | .finishRun sessionId _ _ delta, .ok (.finished run) =>
    .append sessionId (delta.map fun item => ⟨run.id, item, run.endedAt⟩)
  | .forkSession source target, .ok _ => .branch source target
  | _, _ => .skip

def StoreEvent.op (event : StoreEvent) : LogOp String Entry := event.call.op event.reply

/-- The logs of a database: the entries of the rows each session stores. -/
def Database.ledger (db : Database) (sessionId : String) : List Entry :=
  (db.stored sessionId).map (·.entry)

/-! ## What a call writes -/

theorem Database.Valid.stored_append {db db' : Database} (hv : db.Valid) (hv' : db'.Valid)
    {new : List HistoryItem}
    (h : db'.historyItems = db.historyItems ++ new.map HistoryItem.toRow) (sessionId : String) :
    db'.stored sessionId = db.stored sessionId ++ new.filter (·.sessionId = sessionId) := by
  refine List.map_injective_iff.mpr HistoryItem.toRow_injective ?_
  rw [hv'.stored_toRow, h, List.filter_append, ← hv.stored_toRow, List.map_append, List.filter_map]
  rfl

theorem Database.Valid.stored_of_not_hasSession {db : Database} (hv : db.Valid)
    {sessionId : String} (h : ¬ db.HasSession sessionId) : db.stored sessionId = [] := by
  have hnone : db.historyItems.filter (·.sessionId = sessionId) = [] := by
    refine List.filter_eq_nil_iff.mpr fun row hrow hsame => h ?_
    obtain rfl : row.sessionId = sessionId := by simpa using hsame
    exact hv.history_session row hrow
  exact List.map_eq_nil_iff.mp ((hv.stored_toRow sessionId).trans hnone)

theorem map_entry_of_map_kept {items items' : List HistoryItem}
    (h : items.map (·.kept) = items'.map (·.kept)) :
    items.map (·.entry) = items'.map (·.entry) := by
  have hentries := congrArg (List.map Prod.snd) h
  rwa [List.map_map, List.map_map] at hentries

theorem deltaItems_entry (uuid : Nat → String) (run : TerminalRun) (firstPosition : Nat)
    (delta : List ConversationItem) :
    (deltaItems uuid run firstPosition delta).map (·.entry)
      = delta.map fun item => ⟨run.id, item, run.endedAt⟩ := by
  refine List.ext_getElem (by simp [deltaItems]) fun k h h' => ?_
  simp [deltaItems, HistoryItem.entry]

theorem copiedItems_kept (uuid : Nat → String) (items : List HistoryItem) (target : String) :
    (copiedItems uuid items target).map (·.kept) = items.map (·.kept) := by
  refine List.ext_getElem (by simp [copiedItems]) fun k h h' => ?_
  simp [copiedItems, HistoryItem.kept, HistoryItem.entry]

theorem filter_sessionId {items : List HistoryItem} (owner : String)
    (h : ∀ item ∈ items, item.sessionId = owner) (sessionId : String) :
    (owner = sessionId → items.filter (·.sessionId = sessionId) = items) ∧
      (owner ≠ sessionId → items.filter (·.sessionId = sessionId) = []) :=
  ⟨fun hs => List.filter_eq_self.mpr fun item hitem => by simpa [h item hitem] using hs,
    fun hs => List.filter_eq_nil_iff.mpr fun item hitem => by simpa [h item hitem] using hs⟩

theorem deltaItems_appended (uuid : Nat → String) (run : TerminalRun) (firstPosition : Nat)
    (delta : List ConversationItem) (sessionId : String) :
    ((deltaItems uuid run firstPosition delta).filter (·.sessionId = sessionId)).map (·.entry)
      = LogOp.appended sessionId
          (.append run.sessionId (delta.map fun item => ⟨run.id, item, run.endedAt⟩)) := by
  obtain ⟨hself, hother⟩ := filter_sessionId run.sessionId
    (fun _ hitem => (of_mem_deltaItems hitem).1) sessionId
  by_cases hs : run.sessionId = sessionId
  · rw [hself hs, deltaItems_entry, LogOp.appended, if_pos hs]
  · rw [hother hs, LogOp.appended, if_neg hs]
    rfl

section Parser

variable [JsonParser]

theorem Database.Valid.ledger_of_history {db : Database} (hv : db.Valid) {sessionId : String}
    {items : List HistoryItem} (h : db.history sessionId = .ok items) :
    db.ledger sessionId = items.map (·.entry) := by
  rw [Database.ledger, (hv.history_eq_ok.mp h).2]

/-- **What a call writes to the history of a session**: what its operation appends, or, when it
branches the session off another, a copy of that one. -/
theorem Change.history {ambient : Ambient} {db db' : Database} {call : Call}
    {reply : Except PyError Reply} (h : Change ambient db call reply db') :
    ∃ new : List HistoryItem, db'.historyItems = db.historyItems ++ new.map HistoryItem.toRow ∧
      ∀ sessionId,
        (¬ (call.op reply).BranchesTo sessionId ∧
          (new.filter (·.sessionId = sessionId)).map (·.entry)
            = (call.op reply).appended sessionId) ∨
        ∃ source items, call = .forkSession source sessionId ∧
          call.op reply = .branch source sessionId ∧ ¬ db.HasSession sessionId ∧
          db.history source = .ok items ∧
          (new.filter (·.sessionId = sessionId)).map (·.kept) = items.map (·.kept) := by
  have hskip : call.op reply = .skip → ∀ sessionId,
      ¬ (call.op reply).BranchesTo sessionId ∧
        (([] : List HistoryItem).filter (·.sessionId = sessionId)).map (·.entry)
          = (call.op reply).appended sessionId :=
    fun hop sessionId => by rw [hop]; exact ⟨id, rfl⟩
  cases h with
  | failed => exact ⟨[], by simp, fun s => .inl (hskip (by cases call <;> rfl) s)⟩
  | read hreads =>
    refine ⟨[], by simp, fun s => .inl (hskip ?_ s)⟩
    match call, hreads with
    | .getSession _, _ | .listSessions, _ | .getHistory _, _ | .getRun _ _, _ | .listRuns _, _ =>
      rfl
  | created _ | started _ _ _ _ | idle _ => exact ⟨[], by simp, fun s => .inl (hskip rfl s)⟩
  | aborted _ _ _ _ =>
    exact ⟨[], by simp [finalizedDatabase, Database.touchSession, deltaRows],
      fun s => .inl (hskip rfl s)⟩
  | @finished row outcome delta _ _ _ _ _ _ =>
    refine ⟨_, congrArg (db.historyItems ++ ·) (deltaRows_eq ..), fun s => .inl ⟨id, ?_⟩⟩
    exact deltaItems_appended ambient.uuid (terminalRunRecord ambient.now row.activeRun outcome)
      _ delta s
  | @forked source target items _ htarget hitems =>
    refine ⟨_, congrArg (db.historyItems ++ ·) (copiedRows_eq ..), fun s => ?_⟩
    obtain ⟨hself, hother⟩ := filter_sessionId target
      (fun item hitem => (of_mem_copiedItems hitem).1) s
    by_cases hs : target = s
    · obtain rfl := hs
      refine .inr ⟨source, items, rfl, rfl, htarget, hitems, ?_⟩
      rw [hself rfl, copiedItems_kept]
    · rw [hother hs]
      exact .inl ⟨hs, rfl⟩

/-- The call committed this delta, as that of the run. -/
def StoreEvent.Finishes (event : StoreEvent) (sessionId runId : String)
    (delta : List ConversationItem) : Prop :=
  ∃ outcome run, event.call = .finishRun sessionId runId outcome delta ∧
    event.reply = .ok (.finished run) ∧ run.id = runId

/-- **A call that appends to a log** finished a run, with that run's delta. -/
theorem StoreEvent.Steps.of_append {db db' : Database} {event : StoreEvent}
    (h : event.Steps db db') {sessionId : String} {entries : List Entry}
    (hop : event.op = .append sessionId entries) : ∃ runId delta,
      event.Finishes sessionId runId delta ∧
        entries.map (fun entry => (entry.runId, entry.item)) = delta.map (runId, ·) := by
  obtain ⟨call, ambient, reply⟩ := event
  have hchange : Change ambient db call reply db' := h.change
  cases hchange with
  | failed => cases call <;> cases hop
  | read hreads =>
    match call, hreads with
    | .getSession _, _ | .listSessions, _ | .getHistory _, _ | .getRun _ _, _ | .listRuns _, _ =>
      cases hop
  | created _ | started _ _ _ _ | idle _ | aborted _ _ _ _ | forked _ _ _ => cases hop
  | @finished row outcome delta _ _ _ _ _ _ =>
    obtain ⟨rfl, rfl⟩ := LogOp.append.inj hop
    exact ⟨row.id, delta, ⟨outcome, _, rfl, rfl, rfl⟩, by rw [List.map_map]; rfl⟩

/-- **Refinement**: a call does to the logs what its operation says. -/
theorem Change.ledger_eq {ambient : Ambient} {db db' : Database} {call : Call}
    {reply : Except PyError Reply} (h : Change ambient db call reply db') (hv : db.Valid) :
    db'.ledger = (call.op reply).apply db.ledger := by
  obtain ⟨new, hnew, hwrites⟩ := h.history
  have hv' := hv.change h
  funext s
  have hledger : db'.ledger s = db.ledger s ++ (new.filter (·.sessionId = s)).map (·.entry) := by
    simp only [Database.ledger, hv.stored_append hv' hnew s, List.map_append]
  rcases hwrites s with ⟨hbranch, happend⟩ | ⟨source, copied, -, hop, hfresh, hcopied, hkept⟩
  · rw [LogOp.apply_of_not_branchesTo hbranch, hledger, happend]
  · rw [hop, LogOp.apply, Function.update_self, hledger, map_entry_of_map_kept hkept]
    simp [Database.ledger, hv.stored_of_not_hasSession hfresh, (hv.history_eq_ok.mp hcopied).2]

theorem Trace.ledger_eq {db db' : Database} {events : List StoreEvent} (h : Trace db events db')
    (hv : db.Valid) : db'.ledger = replay db.ledger (events.map StoreEvent.op) := by
  induction h with
  | nil _ => rfl
  | cons hstep _ ih =>
    rw [ih (hv.change hstep.change), hstep.change.ledger_eq hv, List.map_cons, replay_cons]
    rfl

/-! ## How a session starts -/

/-- The call founds the session, on a copy of these positions and entries. -/
inductive Founds (db : Database) (sessionId : String) :
    Call → Except PyError Reply → List (Nat × Entry) → Prop where
  | created {record : SessionRecord} :
      Founds db sessionId (.createSession sessionId) (.ok (.session record)) []
  | forked {source : String} {record : SessionRecord} {items : List HistoryItem} :
      db.history source = .ok items →
      Founds db sessionId (.forkSession source sessionId) (.ok (.session record))
        (items.map (·.kept))

section Founding

variable {ambient : Ambient} {db db' : Database} {call : Call} {reply : Except PyError Reply}
  {sessionId : String}

theorem Change.hasSession (h : Change ambient db call reply db') (hs : db.HasSession sessionId) :
    db'.HasSession sessionId := by
  cases h with
  | failed | read _ | idle _ | started _ _ _ _ => exact hs
  | created _ | forked _ _ _ =>
    obtain ⟨row, hrow, hid⟩ := hs
    exact ⟨row, List.mem_append_left _ hrow, hid⟩
  | finished _ _ _ _ | aborted _ _ _ _ => exact Database.hasSession_touchSession.mpr hs

theorem Change.founds (h : Change ambient db call reply db') (hnew : ¬ db.HasSession sessionId)
    (hs : db'.HasSession sessionId) : ∃ kept, Founds db sessionId call reply kept := by
  cases h with
  | failed | read _ | idle _ | started _ _ _ _ => exact absurd hs hnew
  | finished _ _ _ _ | aborted _ _ _ _ =>
    exact absurd (Database.hasSession_touchSession.mp hs) hnew
  | created _ =>
    obtain ⟨row, hrow, rfl⟩ := hs
    rcases List.mem_append.mp hrow with hrow | hrow
    · exact absurd ⟨row, hrow, rfl⟩ hnew
    · obtain rfl := List.mem_singleton.mp hrow
      exact ⟨_, .created⟩
  | forked _ _ hitems =>
    obtain ⟨row, hrow, rfl⟩ := hs
    rcases List.mem_append.mp hrow with hrow | hrow
    · exact absurd ⟨row, hrow, rfl⟩ hnew
    · obtain rfl := List.mem_singleton.mp hrow
      exact ⟨_, .forked hitems⟩

/-- Nothing is appended to a session that does not exist. -/
theorem Change.appended_of_not_hasSession (h : Change ambient db call reply db') (hv : db.Valid)
    (hnew : ¬ db.HasSession sessionId) : (call.op reply).appended sessionId = [] := by
  cases h with
  | failed => cases call <;> rfl
  | @read call _ hreads =>
    match call, hreads with
    | .getSession _, _ | .listSessions, _ | .getHistory _, _ | .getRun _ _, _ | .listRuns _, _ =>
      rfl
  | created _ | started _ _ _ _ | idle _ | aborted _ _ _ _ | forked _ _ _ => rfl
  | finished hrow _ _ _ =>
    refine if_neg fun hs => hnew ?_
    exact hs ▸ hv.run_session _ hrow

/-- A session that exists is not branched anew. -/
theorem Change.not_branchesTo (h : Change ambient db call reply db')
    (hs : db.HasSession sessionId) : ¬ (call.op reply).BranchesTo sessionId := by
  obtain ⟨_, -, hwrites⟩ := h.history
  rcases hwrites sessionId with ⟨hbranch, -⟩ | ⟨_, _, -, -, hnew, -⟩
  · exact hbranch
  · exact absurd hs hnew

theorem Change.stored_of_founds (h : Change ambient db call reply db') (hv : db.Valid)
    (hnew : ¬ db.HasSession sessionId) {kept : List (Nat × Entry)}
    (hfounds : Founds db sessionId call reply kept) :
    (db'.stored sessionId).map (·.kept) = kept := by
  obtain ⟨new, hnewRows, hwrites⟩ := h.history
  rw [hv.stored_append (hv.change h) hnewRows, hv.stored_of_not_hasSession hnew, List.nil_append]
  cases hfounds with
  | created =>
    rcases hwrites sessionId with ⟨-, hentries⟩ | ⟨_, _, hcall, -⟩
    · rw [List.map_eq_nil_iff.mp hentries, List.map_nil]
    · exact absurd hcall (by simp)
  | forked hsource =>
    rcases hwrites sessionId with ⟨hbranch, -⟩ | ⟨_, _, hcall, -, -, hcopied, hkept⟩
    · exact absurd rfl hbranch
    · cases hcall
      rw [hsource] at hcopied
      rw [hkept, Except.ok.inj hcopied]

end Founding

/-! ## Whole runs -/

theorem Trace.not_branchesTo {db db' : Database} {events : List StoreEvent}
    (h : Trace db events db') {sessionId : String} (hs : db.HasSession sessionId) :
    ∀ op ∈ events.map StoreEvent.op, ¬ op.BranchesTo sessionId := by
  induction h with
  | nil _ => simp
  | cons hstep _ ih =>
    rw [List.map_cons, List.forall_mem_cons]
    exact ⟨hstep.change.not_branchesTo hs, ih (hstep.change.hasSession hs)⟩

/-- The log of a session that exists grows by what is appended to it. -/
theorem Trace.ledger_grows {db db' : Database} {events : List StoreEvent}
    (h : Trace db events db') (hv : db.Valid) {sessionId : String} (hs : db.HasSession sessionId) :
    db'.ledger sessionId = db.ledger sessionId ++ events.flatMap (·.op.appended sessionId) := by
  rw [h.ledger_eq hv, replay_of_not_branchesTo (h.not_branchesTo hs), List.flatMap_map]

theorem Trace.stored_prefix {db db' : Database} {events : List StoreEvent}
    (h : Trace db events db') (hv : db.Valid) (sessionId : String) :
    db.stored sessionId <+: db'.stored sessionId := by
  induction h with
  | nil _ => exact List.prefix_rfl
  | cons hstep _ ih =>
    obtain ⟨new, hnew, -⟩ := hstep.change.history
    have hmid := hv.stored_append (hv.change hstep.change) hnew sessionId
    exact (hmid ▸ List.prefix_append _ _).trans (ih (hv.change hstep.change))

/-- **The history of a session grows by what is appended to it.** -/
theorem Trace.stored_grows {db db' : Database} {events : List StoreEvent}
    (h : Trace db events db') (hv : db.Valid) {sessionId : String} (hs : db.HasSession sessionId) :
    ∃ own, db'.stored sessionId = db.stored sessionId ++ own ∧
      own.map (·.entry) = events.flatMap (·.op.appended sessionId) := by
  obtain ⟨own, hfinal⟩ := h.stored_prefix hv sessionId
  refine ⟨own, hfinal.symm, ?_⟩
  have hledger := h.ledger_grows hv hs
  simp only [Database.ledger, ← hfinal, List.map_append] at hledger
  exact List.append_cancel_left hledger

/-- A run of calls, cut at the call that founded a session. -/
structure Founding (events : List StoreEvent) (db : Database) (sessionId : String) where
  before : List StoreEvent
  event : StoreEvent
  after : List StoreEvent
  previous : Database
  next : Database
  kept : List (Nat × Entry)
  events_eq : events = before ++ event :: after
  trace_before : Trace {} before previous
  steps : event.Steps previous next
  trace_after : Trace next after db
  fresh : ¬ previous.HasSession sessionId
  founded : next.HasSession sessionId
  founds : Founds previous sessionId event.call event.reply kept
  nothing_before : (before ++ [event]).flatMap (·.op.appended sessionId) = []

def Founding.snoc {events : List StoreEvent} {db db' : Database} {sessionId : String}
    (f : Founding events db sessionId) {event : StoreEvent} (h : event.Steps db db') :
    Founding (events ++ [event]) db' sessionId :=
  { f with
    after := f.after ++ [event]
    events_eq := by simp [f.events_eq]
    trace_after := f.trace_after.snoc h }

/-- **Every session was founded by one call**, and nothing was appended to it before. -/
theorem Trace.founding {db : Database} {events : List StoreEvent} (h : Trace {} events db)
    {sessionId : String} (hs : db.HasSession sessionId) :
    Nonempty (Founding events db sessionId) := by
  have hkey : (¬ db.HasSession sessionId ∧ events.flatMap (·.op.appended sessionId) = []) ∨
      Nonempty (Founding events db sessionId) := by
    refine h.snocInduction (motive := fun events db =>
      (¬ db.HasSession sessionId ∧ events.flatMap (·.op.appended sessionId) = []) ∨
        Nonempty (Founding events db sessionId)) (.inl ⟨by simp [Database.HasSession], rfl⟩) ?_
    rintro events d event next htrace hstep (⟨hnone, hnothing⟩ | ⟨⟨f⟩⟩)
    · have hnothing' : (events ++ [event]).flatMap (·.op.appended sessionId) = [] := by
        simp only [List.flatMap_append, hnothing, List.nil_append, List.flatMap_singleton]
        exact hstep.change.appended_of_not_hasSession (Trace.valid_of_empty htrace) hnone
      by_cases hs' : next.HasSession sessionId
      · obtain ⟨kept, hfounds⟩ := hstep.change.founds hnone hs'
        exact .inr ⟨events, event, [], d, next, kept, rfl, htrace, hstep, .nil next, hnone, hs',
          hfounds, hnothing'⟩
      · exact .inl ⟨hs', hnothing'⟩
    · exact .inr ⟨f.snoc hstep⟩
  exact hkey.resolve_left fun hnone => hnone.1 hs

/-! ## The ledger -/

/-- What the history of a session holds: dense positions, items of its own whose runs have ended,
first what the session was founded with, then every delta a successful `finish_run` committed. -/
structure Records (events : List StoreEvent) (db : Database) (sessionId : String)
    (items : List HistoryItem) : Prop where
  positions : items.map (·.position) = List.range items.length
  own_session : ∀ item ∈ items, item.sessionId = sessionId
  run_ended : ∀ item ∈ items, db.Ended item.runId
  content : ∃ (f : Founding events db sessionId) (start own : List HistoryItem),
    items = start ++ own ∧ start.map (·.kept) = f.kept ∧
      own.map (·.entry) = events.flatMap (·.op.appended sessionId)

/-- **The rows of a session store its ledger**, whether or not the parser reads them. -/
theorem Trace.records {db : Database} {events : List StoreEvent} (h : Trace {} events db)
    {sessionId : String} (hs : db.HasSession sessionId) :
    Records events db sessionId (db.stored sessionId) := by
  have hv := h.valid_of_empty
  have hrows := hv.stored_toRow sessionId
  have hrow : ∀ item ∈ db.stored sessionId,
      item.toRow ∈ db.historyItems ∧ item.sessionId = sessionId := by
    intro item hitem
    have hmem : item.toRow ∈ db.historyItems.filter (·.sessionId = sessionId) :=
      hrows ▸ List.mem_map_of_mem hitem
    obtain ⟨hstored, hsame⟩ := List.mem_filter.mp hmem
    exact ⟨hstored, of_decide_eq_true hsame⟩
  refine ⟨?positions, fun item hitem => (hrow item hitem).2, ?run_ended, ?content⟩
  case positions =>
    obtain ⟨n, hn⟩ := hv.positions sessionId
    rw [← hrows, List.map_map] at hn
    have hlength : (db.stored sessionId).length = n := by simpa using congrArg List.length hn
    rw [hlength]
    exact hn
  case run_ended =>
    intro item hitem
    obtain ⟨run, hrun, hid, hended⟩ := hv.history_run _ (hrow item hitem).1
    exact ⟨run, hrun, hid, hended⟩
  case content =>
    obtain ⟨f⟩ := h.founding hs
    have hvd := f.trace_before.valid_of_empty
    obtain ⟨own, hfinal, hown⟩ := f.trace_after.stored_grows (hvd.change f.steps.change) f.founded
    refine ⟨f, f.next.stored sessionId, own, hfinal,
      f.steps.change.stored_of_founds hvd f.fresh f.founds, ?_⟩
    have hsplit : (f.before ++ [f.event]) ++ f.after = events := by simp [← f.events_eq]
    calc own.map (·.entry)
        = (f.before ++ [f.event]).flatMap (·.op.appended sessionId)
            ++ f.after.flatMap (·.op.appended sessionId) := by rw [hown, f.nothing_before]; rfl
      _ = events.flatMap (·.op.appended sessionId) := by rw [← List.flatMap_append, hsplit]

/-- The reply showed these items as the history of the session. -/
inductive StoreEvent.Snapshot (sessionId : String) : StoreEvent → List HistoryItem → Prop where
  | history {ambient : Ambient} {items : List HistoryItem} :
      Snapshot sessionId ⟨.getHistory sessionId, ambient, .ok (.history items)⟩ items
  | started {ambient : Ambient} {runId prompt model provider : String} {run : ActiveRun}
      {items : List HistoryItem} :
      Snapshot sessionId ⟨.startRun sessionId runId prompt model provider, ambient,
        .ok (.started { run, committedHistory := items })⟩ items

theorem StoreEvent.Snapshot.history_eq {sessionId : String} {event : StoreEvent}
    {items : List HistoryItem} (hsnapshot : event.Snapshot sessionId items) {db db' : Database}
    (h : event.Steps db db') : db.HasSession sessionId ∧ db.history sessionId = .ok items := by
  cases hsnapshot with
  | history =>
    obtain ⟨hs, items', hitems, hreply⟩ := getHistory_eq_ok h
    obtain rfl : items = items' := by simpa using hreply
    exact ⟨hs, hitems⟩
  | started =>
    obtain ⟨hs, -, -, items', hitems, hreply, -⟩ := startRun_eq_ok h
    obtain ⟨-, rfl⟩ : _ ∧ items = items' := by simpa using hreply
    exact ⟨hs, hitems⟩

/-- The calls that may write the history of a session. -/
def Call.WritesHistory (sessionId : String) : Call → Prop
  | .finishRun sessionId' _ _ _ => sessionId' = sessionId
  | .forkSession _ target => target = sessionId
  | .createSession _ | .getSession _ | .listSessions | .startRun _ _ _ _ _ | .abortActiveRun _
  | .getHistory _ | .getRun _ _ | .listRuns _ => False

theorem Change.history_frame {ambient : Ambient} {db db' : Database} {call : Call}
    {reply : Except PyError Reply} (h : Change ambient db call reply db') (hv : db.Valid)
    {sessionId : String} (hcall : ¬ call.WritesHistory sessionId) :
    db'.historyRows sessionId = db.historyRows sessionId := by
  obtain ⟨new, hnew, hwrites⟩ := h.history
  have hv' := hv.change h
  rcases hwrites sessionId with ⟨-, hentries⟩ | ⟨_, _, rfl, -⟩
  · have hnothing : (call.op reply).appended sessionId = [] := by
      cases call with
      | finishRun sessionId' _ _ _ =>
        match reply with
        | .ok (.finished _) => exact if_neg hcall
        | .ok (.session _) | .ok (.sessions _) | .ok (.started _) | .ok (.aborted _)
        | .ok (.history _) | .ok (.run _) | .ok (.runs _) | .error _ => rfl
      | forkSession _ _ => cases reply <;> rfl
      | _ => rfl
    have hstored := hv.stored_append hv' hnew sessionId
    rw [List.map_eq_nil_iff.mp (hentries.trans hnothing), List.append_nil] at hstored
    rw [hv'.historyRows_eq, hv.historyRows_eq, ← hv'.stored_toRow, hstored, hv.stored_toRow]
  · exact absurd rfl hcall

/-- What `get_history` replies is what the rows store; it replies exactly when they are legible. -/
theorem Database.Valid.getHistory_iff {db : Database} (hv : db.Valid) {sessionId : String}
    (hs : db.HasSession sessionId) (ambient : Ambient) :
    (Call.getHistory sessionId).run ambient.healthy db
        = (.ok (.history (db.stored sessionId)), db) ↔
      ∀ item ∈ db.stored sessionId, item.item.Legible := by
  refine ⟨fun h => ?_, fun h => getHistory_healthy ambient hs (hv.history_eq_ok.mpr ⟨h, rfl⟩)⟩
  obtain ⟨-, items, hitems, -⟩ := getHistory_eq_ok h
  exact (hv.history_eq_ok.mp hitems).1

end Parser

/-- A finished run, a fork of its session, and a finished run in the fork. -/
def forkedCalls : List (Call × Ambient) :=
  finishedTwice ++
    [(.forkSession "s" "t", ⟨6, fun _ => "g", []⟩),
      (.startRun "t" "q" "again" "model" "provider", ⟨7, fun _ => "f", []⟩),
      (.finishRun "t" "q" (.completed (.text "done")) [.user { content := "again" }],
        ⟨8, fun _ => "f", []⟩)]

end Tile
