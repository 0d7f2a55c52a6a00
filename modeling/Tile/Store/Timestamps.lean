import Tile.Store.Lifecycle

/-!
# Store/Timestamps — stored records stay readable under any clock

A record that violates its validators can never be read again, and its session with it.  The clock
of a call is whatever its surroundings say, so nothing orders the readings of two calls.  What keeps
rows in order is the clamp of `terminal_run_record` and the maximum of `_touch_session`:
**no clock keeps a row from being read, no session goes back in time, and a session is never older
than the end of one of its runs** (`records_stay_readable`).
-/

namespace Tile

namespace Database

/-- A session is at least as recent as the end of each of its runs. -/
def CoversRuns (db : Database) : Prop :=
  ∀ run ∈ db.runs, ∀ endedAt, run.endedAt = some endedAt →
    ∀ session ∈ db.sessions, session.id = run.sessionId → endedAt ≤ session.updatedAt

/-- Sessions stay, with their creation time, and only move forward. -/
def Advances (db db' : Database) : Prop :=
  ∀ session ∈ db.sessions, ∃ session' ∈ db'.sessions, session'.id = session.id ∧
    session'.createdAt = session.createdAt ∧ session.updatedAt ≤ session'.updatedAt

theorem Advances.refl (db : Database) : db.Advances db :=
  fun session hsession => ⟨session, hsession, rfl, rfl, Nat.le_refl _⟩

theorem Advances.trans {db db' db'' : Database} (h : db.Advances db') (h' : db'.Advances db'') :
    db.Advances db'' := by
  intro session hsession
  obtain ⟨session₁, hsession₁, hid₁, hcreated₁, hle₁⟩ := h session hsession
  obtain ⟨session₂, hsession₂, hid₂, hcreated₂, hle₂⟩ := h' session₁ hsession₁
  exact ⟨session₂, hsession₂, hid₂.trans hid₁, hcreated₂.trans hcreated₁, hle₁.trans hle₂⟩

theorem Advances.of_sessions_append {db db' : Database} {added : List SessionRow}
    (h : db'.sessions = db.sessions ++ added) : db.Advances db' := fun session hsession =>
  ⟨session, h ▸ List.mem_append_left _ hsession, rfl, rfl, Nat.le_refl _⟩

end Database

/-! ## One call -/

namespace Database.Valid

variable {db : Database}

/-- What a terminal update leaves of the sessions: one of them moved to the later of its own time
and the end of its run. -/
theorem mem_sessions_finalized (hv : db.Valid) {uuid : Nat → String} {record : TerminalRun}
    {outcomeJson : Json} {delta : List ConversationItem} {sessionRow session : SessionRow}
    (hsession : db.session? record.sessionId = some sessionRow)
    (h : session ∈ (finalizedDatabase uuid record outcomeJson delta sessionRow.updatedAt
      db).sessions) :
    ∃ old ∈ db.sessions, session.id = old.id ∧ old.updatedAt ≤ session.updatedAt ∧
      (old.id = record.sessionId → record.endedAt ≤ session.updatedAt) := by
  obtain ⟨old, hold, rfl⟩ := List.mem_map.mp h
  refine ⟨old, hold, ?_⟩
  split
  · next hid =>
    obtain rfl := hv.session_eq hold hid hsession
    exact ⟨rfl, Nat.le_max_left _ _, fun _ => Nat.le_max_right _ _⟩
  · next hid => exact ⟨rfl, Nat.le_refl _, fun h => absurd h hid⟩

theorem advances_finalized (hv : db.Valid) {uuid : Nat → String} {record : TerminalRun}
    {outcomeJson : Json} {delta : List ConversationItem} {sessionRow : SessionRow}
    (hsession : db.session? record.sessionId = some sessionRow) :
    db.Advances (finalizedDatabase uuid record outcomeJson delta sessionRow.updatedAt db) := by
  intro session hmem
  refine ⟨_, List.mem_map_of_mem hmem, ?_⟩
  split
  · next hid =>
    obtain rfl := hv.session_eq hmem hid hsession
    exact ⟨rfl, rfl, Nat.le_max_left _ _⟩
  · exact ⟨rfl, rfl, Nat.le_refl _⟩

theorem coversRuns_finalized (hv : db.Valid) (hc : db.CoversRuns) {row : RunRow}
    (hrow : row ∈ db.runs) (hactive : row.status = .active) {ambient : Ambient}
    {outcome : RunOutcome} {outcomeJson : Json} {delta : List ConversationItem}
    {sessionRow : SessionRow} (hsession : db.session? row.sessionId = some sessionRow) :
    (finalizedDatabase ambient.uuid (terminalRunRecord ambient.now row.activeRun outcome)
      outcomeJson delta sessionRow.updatedAt db).CoversRuns := by
  intro run hrun endedAt hended session hmem hid
  obtain ⟨old, hold, rfl⟩ := List.mem_map.mp hrun
  obtain ⟨oldSession, holdSession, hsame, hle, hclamped⟩ :=
    hv.mem_sessions_finalized hsession hmem
  rw [Database.finishedRow_sessionId] at hid
  by_cases hfinished : old.id = row.id
  · obtain rfl := hv.run_unique hold hrow hfinished
    have hmatch := Database.finishedRow_of_match (terminalStatusFor outcome)
      (max ambient.now old.startedAt) outcomeJson hactive
    obtain rfl := Option.some.inj ((congrArg RunRow.endedAt hmatch).symm.trans hended)
    exact hclamped (hsame ▸ hid)
  · simp only [terminalRunRecord_id, RunRow.activeRun_id] at hended
    rw [Database.finishedRow_of_ne hfinished] at hended
    exact (hc old hold endedAt hended oldSession holdSession (hsame ▸ hid)).trans hle

/-- A new session owns no run yet. -/
theorem coversRuns_append (hv : db.Valid) (hc : db.CoversRuns) {sessionId : String}
    (hnew : ¬ db.HasSession sessionId) {run : RunRow} (hrun : run ∈ db.runs) {endedAt : Timestamp}
    (hended : run.endedAt = some endedAt) {now : Timestamp} {session : SessionRow}
    (hsession : session ∈ db.sessions ++ [⟨sessionId, now, now⟩])
    (hid : session.id = run.sessionId) : endedAt ≤ session.updatedAt := by
  rcases List.mem_append.mp hsession with hsession | hsession
  · exact hc run hrun endedAt hended session hsession hid
  · obtain rfl := List.mem_singleton.mp hsession
    obtain rfl : sessionId = run.sessionId := hid
    exact absurd (hv.run_session run hrun) hnew

end Database.Valid

section Parser

variable [JsonParser]

namespace Change

variable {ambient : Ambient} {db db' : Database} {call : Call} {reply : Except PyError Reply}

theorem advances (h : Change ambient db call reply db') (hv : db.Valid) : db.Advances db' := by
  cases h with
  | failed | read _ | idle _ | started _ _ _ _ => exact .refl db
  | created _ | forked _ _ _ => exact .of_sessions_append rfl
  | finished _ _ _ hsession | aborted _ _ _ hsession => exact hv.advances_finalized hsession

theorem coversRuns (h : Change ambient db call reply db') (hv : db.Valid) (hc : db.CoversRuns) :
    db'.CoversRuns := by
  cases h with
  | failed | read _ | idle _ => exact hc
  | created hnew =>
    exact fun run hrun endedAt hended session => hv.coversRuns_append hc hnew hrun hended
  | forked _ hnew _ =>
    exact fun run hrun endedAt hended session => hv.coversRuns_append hc hnew hrun hended
  | started _ _ _ _ =>
    intro run hrun endedAt hended
    rcases List.mem_append.mp hrun with hrun | hrun
    · exact hc run hrun endedAt hended
    · obtain rfl := List.mem_singleton.mp hrun
      simp [runValues] at hended
  | finished hrow hactive _ hsession => exact hv.coversRuns_finalized hc hrow hactive hsession
  | aborted hrow hactive _ hsession => exact hv.coversRuns_finalized hc hrow hactive hsession

end Change

/-! ## Any calls -/

namespace Trace

variable {db db' : Database} {events : List StoreEvent}

theorem advances (h : Trace db events db') (hv : db.Valid) : db.Advances db' :=
  h.relates (fun hstep hv => hv.change hstep.change) (fun hstep hv => hstep.change.advances hv)
    Database.Advances.refl Database.Advances.trans hv

theorem coversRuns (h : Trace {} events db) : db.CoversRuns := by
  have hboth : db.Valid ∧ db.CoversRuns :=
    h.invariant (P := fun db => db.Valid ∧ db.CoversRuns)
      (fun hstep hboth => ⟨hboth.1.change hstep.change, hstep.change.coversRuns hboth.1 hboth.2⟩)
      ⟨.empty, fun run hrun => by simp at hrun⟩
  exact hboth.2

end Trace

end Parser

/-- A session whose clock jumps back at every call. -/
def clockJumpsBack : List (Call × Ambient) :=
  [(.createSession "s", ⟨9, fun _ => "h", []⟩),
    (.startRun "s" "r" "prompt" "model" "provider", ⟨5, fun _ => "h", []⟩),
    (.finishRun "s" "r" (.completed (.text "done")) [.user { content := "prompt" }],
      ⟨2, fun _ => "h", []⟩)]

end Tile
