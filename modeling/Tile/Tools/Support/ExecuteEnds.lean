import Tile.Library.Progress
import Tile.Tools.Support.Executables

/-!
# Tools/Support/ExecuteEnds — whether `execute` returns

The process, the event loop and the two readers take a bounded number of steps, after which
`execute` **has ended or is choked** (`execute_ends`): over the cap nobody reads stdout any more,
and `process.wait()` waits for its end, which the event loop does not see while the pipe is paused.
Up to the cap it is never choked; a flood of output can choke it (`exists_choked`).
-/

namespace Tile

namespace Executables

section Ends

variable {execution : Execution} {s s' : ExecuteState} {events : List ExecuteEvent}
  {event : ExecuteEvent}

/-! ## What is left to do -/

/-- The awaits that are left. -/
def ExecutePoint.left : ExecutePoint → Nat
  | .readStdout => 3
  | .wait _ _ => 2
  | .stderrTask _ _ => 1
  | .ended _ => 0

/-- What is left to do: a byte is written, fed and read. -/
def ExecuteState.left (s : ExecuteState) : Nat :=
  3 * s.pending.length + s.stdout.left + s.stderr.left + s.status.isNone.toNat +
    s.returncode.isNone.toNat + (!s.stderrDone).toNat + s.point.left

theorem ExecuteState.left_setPipe {s : ExecuteState} {p : Pipe Byte} {descriptor : Descriptor}
    (h : p.left < (s.pipe descriptor).left) : (s.setPipe p descriptor).left < s.left := by
  cases descriptor with
  | stdout =>
    have hlt : p.left < s.stdout.left := h
    simp only [left, setPipe]
    omega
  | stderr =>
    have hlt : p.left < s.stderr.left := h
    simp only [left, setPipe]
    omega

theorem ExecuteState.left_collect {s : ExecuteState} (hpoint : s.point = .readStdout)
    (hbuffer : s.stdout.buffer.length ≠ 0) : s.collect.left < s.left := by
  have hread : (s.stdout.read STREAM_LIMIT READ_SIZE).left < s.stdout.left :=
    Pipe.left_read (by decide) hbuffer
  by_cases hcap : STDOUT_BYTE_CAP ≤ (s.collected ++ s.stdout.buffer.take READ_SIZE).length
  · rw [ExecuteState.collect_of_le hcap]
    simp only [left, hpoint, ExecutePoint.left]
    omega
  · rw [ExecuteState.collect_of_lt (Nat.lt_of_not_le hcap)]
    simp only [left]
    omega

/-- Every event leaves less to do. -/
theorem ExecuteStep.left_lt (h : ExecuteStep execution s event s') : s'.left < s.left := by
  have hdoes := h.does
  cases event with
  | write =>
    obtain ⟨descriptor, b, rest, hpending, -, -, rfl⟩ := hdoes
    cases descriptor <;>
      (simp only [ExecuteState.left, ExecuteState.setPipe, ExecuteState.pipe, Pipe.left_write,
        hpending, List.length_cons]
       omega)
  | exit =>
    obtain ⟨hrunning, -, rfl⟩ := hdoes
    simp [ExecuteState.left, hrunning]
  | die =>
    obtain ⟨hrunning, -, rfl⟩ := hdoes
    simp only [ExecuteState.left, hrunning, List.length_nil, Option.isNone_none, Option.isNone_some,
      Bool.toNat_true, Bool.toNat_false]
    omega
  | report =>
    obtain ⟨exitCode, -, hcode, rfl⟩ := hdoes
    simp [ExecuteState.left, hcode]
  | feed descriptor size =>
    obtain ⟨hfeed, rfl⟩ := hdoes
    exact ExecuteState.left_setPipe (Pipe.left_feed hfeed)
  | disconnect descriptor =>
    obtain ⟨-, hend, rfl⟩ := hdoes
    exact ExecuteState.left_setPipe (Pipe.left_disconnect hend)
  | readStdout =>
    obtain ⟨hpoint, hbuffer, rfl⟩ := hdoes
    exact ExecuteState.left_collect hpoint hbuffer
  | readStderr =>
    obtain ⟨-, hbuffer, rfl⟩ := hdoes
    have hread : (s.stderr.read STREAM_LIMIT READ_SIZE).left < s.stderr.left :=
      Pipe.left_read (by decide) hbuffer
    simp only [ExecuteState.left, ExecuteState.keep]
    omega
  | endOfStdout =>
    obtain ⟨hpoint, -, rfl⟩ := hdoes
    simp only [ExecuteState.left, hpoint, ExecutePoint.left]
    omega
  | endOfStderr =>
    obtain ⟨hdone, -, rfl⟩ := hdoes
    simp [ExecuteState.left, hdone]
  | reap =>
    obtain ⟨capped, known, exitCode, hpoint, -, -, rfl⟩ := hdoes
    simp only [ExecuteState.left, hpoint, ExecutePoint.left]
    omega
  | finish =>
    obtain ⟨capped, exitCode, hpoint, -, rfl⟩ := hdoes
    simp only [ExecuteState.left, hpoint, ExecutePoint.left]
    omega

/-- **Being choked is for ever**: only a read goes on with a paused pipe. -/
theorem ExecuteStep.choked (h : ExecuteStep execution s event s') (hs : s.Choked) : s'.Choked := by
  obtain ⟨hpoint, hpaused, hconnected⟩ := hs
  have hdoes := h.does
  cases event with
  | write =>
    obtain ⟨descriptor, b, rest, -, -, -, rfl⟩ := hdoes
    cases descriptor <;> exact ⟨hpoint, hpaused, hconnected⟩
  | exit | die | readStderr | endOfStderr =>
    obtain ⟨-, -, rfl⟩ := hdoes
    exact ⟨hpoint, hpaused, hconnected⟩
  | report =>
    obtain ⟨exitCode, -, -, rfl⟩ := hdoes
    exact ⟨hpoint, hpaused, hconnected⟩
  | feed descriptor size =>
    obtain ⟨⟨hopen, -⟩, rfl⟩ := hdoes
    cases descriptor with
    | stdout => cases hpaused.symm.trans hopen
    | stderr => exact ⟨hpoint, hpaused, hconnected⟩
  | disconnect descriptor =>
    obtain ⟨-, ⟨hopen, -⟩, rfl⟩ := hdoes
    cases descriptor with
    | stdout => cases hpaused.symm.trans hopen
    | stderr => exact ⟨hpoint, hpaused, hconnected⟩
  | readStdout | endOfStdout => cases hpoint.symm.trans hdoes.1
  | reap =>
    obtain ⟨capped, known, exitCode, hwait, -, hwoken, -⟩ := hdoes
    cases hpoint.symm.trans hwait
    simp [hconnected] at hwoken
  | finish =>
    obtain ⟨capped, exitCode, hwait, -⟩ := hdoes
    cases hpoint.symm.trans hwait

/-- A step that leaves at most a byte more than nothing in the reader's hands. -/
def Goes (execution : Execution) (s : ExecuteState) : Prop :=
  ∃ event s', ExecuteStep execution s event s' ∧
    s'.stdout.content.length ≤ max 1 s.stdout.content.length

theorem goes_of_eq (event : ExecuteEvent) (s' : ExecuteState)
    (h : ExecuteStep execution s event s') (hstdout : s'.stdout = s.stdout) : Goes execution s :=
  ⟨event, s', h, hstdout ▸ Nat.le_max_right ..⟩

theorem goes_feed (descriptor : Descriptor) {size : Nat}
    (h : (s.pipe descriptor).CanFeed MAX_SIZE size) : Goes execution s := by
  refine ⟨.feed descriptor size, s.setPipe ((s.pipe descriptor).feed STREAM_LIMIT size) descriptor,
    if_pos h, ?_⟩
  cases descriptor with
  | stdout =>
    show (s.stdout.feed STREAM_LIMIT size).content.length ≤ _
    rw [Pipe.content_feed]
    exact Nat.le_max_right ..
  | stderr => exact Nat.le_max_right ..

theorem goes_disconnect (descriptor : Descriptor) (hexited : s.status.isSome = true)
    (h : (s.pipe descriptor).CanDisconnect) : Goes execution s := by
  refine ⟨.disconnect descriptor, s.setPipe (s.pipe descriptor).disconnect descriptor,
    if_pos ⟨hexited, h⟩, ?_⟩
  cases descriptor <;> exact Nat.le_max_right ..

theorem goes_readStdout (hpoint : s.point = .readStdout) (hbuffer : s.stdout.buffer.length ≠ 0) :
    Goes execution s := by
  refine ⟨.readStdout, s.collect, ?_, ?_⟩
  · rw [ExecuteStep, executeStep, hpoint]
    exact if_pos hbuffer
  · have hstdout : s.collect.stdout = s.stdout.read STREAM_LIMIT READ_SIZE := by
      rw [ExecuteState.collect]
      split <;> rfl
    rw [hstdout]
    exact (Pipe.length_content_read_le ..).trans (Nat.le_max_right ..)

theorem goes_readStderr (hdone : s.stderrDone = false) (hbuffer : s.stderr.buffer.length ≠ 0) :
    Goes execution s :=
  goes_of_eq .readStderr _ (if_pos ⟨hdone, hbuffer⟩) rfl

/-- The task that reads stderr goes on until it has seen the end. -/
theorem ExecuteInv.stderr_goes (hs : ExecuteInv execution s) (hexited : s.status.isSome = true)
    (hdone : s.stderrDone = false) : s.stderr.AtEnd ∨ Goes execution s := by
  rcases (hs.pipes .stderr).moves MAX_SIZE (by decide) with
    hbuffer | hfeed | ⟨-, hend | hend⟩
  · exact .inr (goes_readStderr hdone hbuffer)
  · exact .inr (goes_feed _ hfeed)
  · exact .inr (goes_disconnect _ hexited hend)
  · exact .inl hend

/-- While the process is running, what it wrote to stdout is read; else it writes or exits, or its
stderr is read; and a process that is killed dies. -/
theorem ExecuteInv.goes_of_running (hs : ExecuteInv execution s)
    (hcapacity : 0 < execution.capacity) (hrunning : s.status = none) : Goes execution s := by
  have hopen : ∀ descriptor, (s.pipe descriptor).disconnected ≠ true := fun descriptor h => by
    simpa [hrunning] using ((hs.pipes descriptor).disconnected h).2
  by_cases hkilled : s.killed = true
  · exact goes_of_eq .die _ (if_pos ⟨hrunning, hkilled⟩) rfl
  have hpoint : s.point = .readStdout := by
    have hread : ∀ capped, ¬ ReadEnded s capped := by
      rintro (_ | _) hread
      · exact hopen .stdout hread.2.2.2
      · exact hkilled (hread.2.2 hrunning)
    have hat := hs.atPoint
    cases hpoint : s.point with
    | readStdout => rfl
    | wait capped known =>
      rw [hpoint] at hat
      exact absurd hat (hread capped)
    | stderrTask capped exitCode =>
      rw [hpoint] at hat
      exact absurd hat.1 (hread capped)
    | ended result =>
      rw [hpoint] at hat
      obtain ⟨capped, exitCode, hended, -⟩ := hat
      exact absurd hended (hread capped)
  rcases (hs.pipes .stdout).moves MAX_SIZE (by decide) with hbuffer | hfeed | ⟨hempty, -⟩
  · exact goes_readStdout hpoint hbuffer
  · exact goes_feed _ hfeed
  cases hpending : s.pending with
  | nil => exact goes_of_eq .exit _ (if_pos ⟨hrunning, hpending⟩) rfl
  | cons write rest =>
    obtain ⟨descriptor, b⟩ := write
    by_cases hroom : (s.pipe descriptor).inPipe.length < execution.capacity
    · refine ⟨.write, { s with pending := rest }.setPipe ((s.pipe descriptor).write b) descriptor,
        ?_, ?_⟩
      · rw [ExecuteStep, executeStep, hpending]
        exact if_pos ⟨hrunning, hroom⟩
      · cases descriptor with
        | stdout =>
          show (s.stdout.write b).content.length ≤ _
          have hcontent : s.stdout.content = [] := hempty
          rw [Pipe.content_write, hcontent]
          exact Nat.le_max_left ..
        | stderr => exact Nat.le_max_right ..
    -- The process waits for a full pipe, which is not stdout.
    cases descriptor with
    | stdout =>
      have hcontent : s.stdout.buffer ++ s.stdout.inPipe = [] := hempty
      have hnil : s.stdout.inPipe = [] := (List.append_eq_nil_iff.mp hcontent).2
      exact absurd (show s.stdout.inPipe.length < execution.capacity by rwa [hnil]) hroom
    | stderr =>
      have hdone : s.stderrDone = false :=
        Bool.eq_false_iff.mpr fun hdone => hopen .stderr (hs.drained hdone).2
      rcases (hs.pipes .stderr).moves MAX_SIZE (by decide) with
        hbuffer | hfeed | ⟨hempty, -⟩
      · exact goes_readStderr hdone hbuffer
      · exact goes_feed _ hfeed
      · have hcontent : s.stderr.buffer ++ s.stderr.inPipe = [] := hempty
        have hnil : s.stderr.inPipe = [] := (List.append_eq_nil_iff.mp hcontent).2
        exact absurd (show s.stderr.inPipe.length < execution.capacity by rwa [hnil]) hroom

/-- Once the exit is known, the pipes are emptied and `execute` goes on, unless it is choked. -/
theorem ExecuteInv.goes_of_exited (hs : ExecuteInv execution s) {exitCode : Int}
    (hcode : s.returncode = some exitCode) : s.Ended ∨ s.Choked ∨ Goes execution s := by
  have hexited : s.status.isSome = true := by rw [hs.reported exitCode hcode]; rfl
  cases hpoint : s.point with
  | readStdout =>
    refine .inr (.inr ?_)
    rcases (hs.pipes .stdout).moves MAX_SIZE (by decide) with
      hbuffer | hfeed | ⟨-, hend | hend⟩
    · exact goes_readStdout hpoint hbuffer
    · exact goes_feed _ hfeed
    · exact goes_disconnect _ hexited hend
    · refine goes_of_eq .endOfStdout
        { s with point := .wait false s.returncode.isSome } ?_ rfl
      rw [ExecuteStep, executeStep, hpoint]
      exact if_pos hend
  | wait capped known =>
    have hreap (h : known = true ∨ s.stdout.disconnected = true ∧ s.stderr.disconnected = true) :
        Goes execution s := by
      refine goes_of_eq .reap { s with point := .stderrTask capped exitCode } ?_ rfl
      rw [ExecuteStep, executeStep, hpoint, hcode]
      exact if_pos h
    cases known with
    | true => exact .inr (.inr (hreap (.inl rfl)))
    | false =>
    by_cases hstdout : s.stdout.disconnected = true
    · by_cases hstderr : s.stderr.disconnected = true
      · exact .inr (.inr (hreap (.inr ⟨hstdout, hstderr⟩)))
      · have hdone : s.stderrDone = false :=
          Bool.eq_false_iff.mpr fun hdone => hstderr (hs.drained hdone).2
        rcases hs.stderr_goes hexited hdone with hend | hgoes
        · exact absurd hend.2 hstderr
        · exact .inr (.inr hgoes)
    · cases hpaused : s.stdout.paused with
      | true =>
        have hat := hs.atPoint
        rw [hpoint] at hat
        cases capped with
        | true => exact .inr (.inl ⟨hpoint, hpaused, Bool.eq_false_iff.mpr hstdout⟩)
        | false => exact absurd hat.2.2.2 hstdout
      | false =>
        refine .inr (.inr ?_)
        by_cases hempty : s.stdout.inPipe.length = 0
        · exact goes_disconnect .stdout hexited
            ⟨hpaused, hempty, Bool.eq_false_iff.mpr hstdout⟩
        · exact goes_feed .stdout
            ⟨hpaused, Nat.one_pos, Nat.one_le_iff_ne_zero.mpr hempty, by decide⟩
  | stderrTask capped reaped =>
    refine .inr (.inr ?_)
    by_cases hdone : s.stderrDone = true
    · refine goes_of_eq .finish { s with
        point := .ended (executeResult execution s.collected s.kept capped reaped) } ?_ rfl
      rw [ExecuteStep, executeStep, hpoint]
      exact if_pos hdone
    · have hdone : s.stderrDone = false := Bool.eq_false_iff.mpr hdone
      rcases hs.stderr_goes hexited hdone with hend | hgoes
      · exact goes_of_eq .endOfStderr _ (if_pos ⟨hdone, hend⟩) rfl
      · exact hgoes
  | ended result => exact .inl ⟨result, hpoint⟩

theorem ExecuteInv.goes (hs : ExecuteInv execution s) (hcapacity : 0 < execution.capacity) :
    s.Ended ∨ s.Choked ∨ Goes execution s := by
  cases hstatus : s.status with
  | none => exact .inr (.inr (hs.goes_of_running hcapacity hstatus))
  | some status =>
    cases hcode : s.returncode with
    | none =>
      refine .inr (.inr (goes_of_eq .report { s with returncode := some status } ?_ rfl))
      rw [ExecuteStep, executeStep, hstatus, hcode]
    | some exitCode => exact hs.goes_of_exited hcode

/-- **Choking takes more output than the cap and the limit of a stream reader.** -/
theorem ExecuteInv.lt_of_choked (hs : ExecuteInv execution s) (hchoked : s.Choked) :
    STDOUT_BYTE_CAP + STREAM_LIMIT < execution.process.stdout.length := by
  obtain ⟨hpoint, hpaused, -⟩ := hchoked
  have hat := hs.atPoint
  rw [hpoint] at hat
  have hbuffer : STREAM_LIMIT < s.stdout.buffer.length := (hs.pipes .stdout).paused hpaused
  have hlength := hs.stdout.append_prefix.length_le
  rw [List.length_append, Pipe.content, List.length_append] at hlength
  have hcap := hat.1
  omega

/-- It can end whatever the process writes: if no byte is written before the last one is read, the
pipe is never paused. -/
theorem exists_ended (execution : Execution) (hcapacity : 0 < execution.capacity) :
    ∃ events s, Run (ExecuteStep execution) (.start execution) events s ∧ s.Ended := by
  have hprogress : ∀ s, ExecuteInv execution s ∧ s.stdout.content.length ≤ 1 →
      s.Ended ∨ ∃ event s', ExecuteStep execution s event s' ∧
        (ExecuteInv execution s' ∧ s'.stdout.content.length ≤ 1) ∧ s'.left < s.left := by
    intro s ⟨hs, hcontent⟩
    rcases hs.goes hcapacity with hended | ⟨-, hpaused, -⟩ | ⟨event, s', hstep, hle⟩
    · exact .inl hended
    · have hbuffer : STREAM_LIMIT < s.stdout.buffer.length := (hs.pipes .stdout).paused hpaused
      rw [Pipe.content, List.length_append] at hcontent
      rw [STREAM_LIMIT] at hbuffer
      omega
    · exact .inr ⟨event, s', hstep, ⟨hstep.inv hs, hle.trans (by omega)⟩, hstep.left_lt⟩
  obtain ⟨events, s, hrun, -, hended⟩ :=
    Run.exists_ended hprogress (.start execution) ⟨executeInv_start execution, Nat.zero_le 1⟩
  exact ⟨events, s, hrun, hended⟩

/-- **How `execute` ends**, however the process, the event loop and the two readers interleave: they
take a bounded number of steps, and when there is no step left it has ended, or it is choked and
stays so; up to the cap it is never choked, and can go on to the end. -/
theorem execute_ends (hcapacity : 0 < execution.capacity)
    (h : Run (ExecuteStep execution) (.start execution) events s) :
    events.length ≤ 3 * execution.process.writes.length + 8 ∧
      ((∀ event s', ¬ ExecuteStep execution s event s') → s.Ended ∨ s.Choked) ∧
      (s.Choked → STDOUT_BYTE_CAP + STREAM_LIMIT < execution.process.stdout.length ∧
        ∀ events' s', Run (ExecuteStep execution) s events' s' → ¬ s'.Ended) ∧
      (execution.process.stdout.length ≤ STDOUT_BYTE_CAP + STREAM_LIMIT →
        ∃ events' s', Run (ExecuteStep execution) s events' s' ∧ s'.Ended) := by
  have hs := executeInv_of_run h
  refine ⟨?_, fun hstuck => ?_, fun hchoked => ⟨hs.lt_of_choked hchoked, ?_⟩, fun hbelow => ?_⟩
  · have hlength := h.length_add_measure_le
      (fun _ _ _ hstep hs => ⟨hstep.inv hs, hstep.left_lt⟩) (executeInv_start execution)
    have hstart :
        (ExecuteState.start execution).left = 3 * execution.process.writes.length + 8 := by
      simp [ExecuteState.left, ExecuteState.start, ExecutePoint.left, Pipe.left]
    omega
  · rcases hs.goes hcapacity with hended | hchoked | ⟨event, s', hstep, -⟩
    · exact .inl hended
    · exact .inr hchoked
    · exact absurd hstep (hstuck event s')
  · rintro events' s' hrun ⟨result, hended⟩
    obtain ⟨hpoint, -⟩ := hrun.invariant (fun hstep hs => hstep.choked hs) hchoked
    cases hpoint.symm.trans hended
  · have hprogress : ∀ s, ExecuteInv execution s → s.Ended ∨ ∃ event s',
        ExecuteStep execution s event s' ∧ ExecuteInv execution s' ∧ s'.left < s.left := by
      intro s hs
      rcases hs.goes hcapacity with hended | hchoked | ⟨event, s', hstep, -⟩
      · exact .inl hended
      · exact absurd (hs.lt_of_choked hchoked) (Nat.not_lt_of_le hbelow)
      · exact .inr ⟨event, s', hstep, hstep.inv hs, hstep.left_lt⟩
    obtain ⟨events', s', hrun, -, hended⟩ := Run.exists_ended hprogress s hs
    exact ⟨events', s', hrun, hended⟩

end Ends

/-! ## A search that chokes

With pipes that hold three times the limit of a stream reader, a process that floods its stdout can
choke `execute`: the read that reaches the cap leaves more than the limit behind. -/

section Choking

variable {execution : Execution} {s : ExecuteState} {b : Byte} {left read : Nat}

/-- The process has still `left` bytes to write, and `read` were read. -/
def dripping (b : Byte) (left read : Nat) (stdout : Pipe Byte) : ExecuteState where
  pending := List.replicate left (.stdout, b)
  stdout := stdout
  collected := List.replicate read b

theorem dripping_write {stdout : Pipe Byte} (hroom : stdout.inPipe.length < execution.capacity) :
    ExecuteStep execution (dripping b (left + 1) read stdout) .write
      (dripping b left read (stdout.write b)) := by
  rw [ExecuteStep, executeStep, dripping, List.replicate_succ]
  exact if_pos ⟨rfl, hroom⟩

/-- A byte is written, fed and read. -/
theorem dripping_drip (hcapacity : 0 < execution.capacity) (hread : read + 1 < STDOUT_BYTE_CAP) :
    Run (ExecuteStep execution) (dripping b (left + 1) read {})
      [.write, .feed .stdout 1, .readStdout] (dripping b left (read + 1) {}) := by
  have hfeed : ExecuteStep execution (dripping b left read { inPipe := [b] }) (.feed .stdout 1)
      (dripping b left read { buffer := [b] }) := by
    rw [ExecuteStep, executeStep]
    exact if_pos ⟨rfl, Nat.one_pos, Nat.le_refl 1, by decide⟩
  have hcollected : List.replicate read b ++ [b] = List.replicate (read + 1) b :=
    List.replicate_succ'.symm
  have hlt : (List.replicate read b ++ [b]).length < STDOUT_BYTE_CAP := by
    rwa [hcollected, List.length_replicate]
  have hcollect : ExecuteStep execution (dripping b left read { buffer := [b] }) .readStdout
      (dripping b left (read + 1) {}) := by
    show some (dripping b left read { buffer := [b] }).collect = _
    rw [ExecuteState.collect_of_lt hlt, dripping, dripping, ← hcollected]
    rfl
  exact .cons (dripping_write hcapacity) (.cons hfeed (.single hcollect))

theorem exists_drips (hcapacity : 0 < execution.capacity) (b : Byte) (left : Nat) :
    ∀ n read, read + n < STDOUT_BYTE_CAP → ∃ events,
      Run (ExecuteStep execution) (dripping b (left + n) read {}) events
        (dripping b left (read + n) {})
  | 0, read, _ => ⟨[], .nil _⟩
  | n + 1, read, hread => by
    obtain ⟨events, hrun⟩ := exists_drips hcapacity b left n (read + 1) (by omega)
    rw [Nat.add_right_comm, Nat.add_assoc read] at hrun
    exact ⟨_, (dripping_drip hcapacity (by omega)).append hrun⟩

/-- The pipe is filled. -/
theorem exists_filled (execution : Execution) (b : Byte) (left read : Nat) :
    ∀ n stdout, stdout.inPipe.length + n ≤ execution.capacity → ∃ events,
      Run (ExecuteStep execution) (dripping b (left + n) read stdout) events
        (dripping b left read { stdout with inPipe := stdout.inPipe ++ List.replicate n b })
  | 0, stdout, _ => by
    refine ⟨[], ?_⟩
    rw [List.replicate_zero, List.append_nil]
    exact .nil _
  | n + 1, stdout, hroom => by
    have hlength : (stdout.write b).inPipe.length = stdout.inPipe.length + 1 :=
      List.length_append
    obtain ⟨events, hrun⟩ := exists_filled execution b left read n (stdout.write b) (by omega)
    rw [Pipe.write, List.append_assoc, List.singleton_append, ← List.replicate_succ] at hrun
    exact ⟨_, .cons (dripping_write (by omega)) hrun⟩

/-- What is in the pipe is fed at once, and the read that reaches the cap leaves a paused pipe. -/
theorem exists_choked_of_filled (execution : Execution) (s : ExecuteState)
    (hpoint : s.point = .readStdout) (hrunning : s.returncode = none) {inPipe : Bytes}
    (hstdout : s.stdout = { inPipe })
    (hlength : inPipe.length = 3 * STREAM_LIMIT)
    (hcap : STDOUT_BYTE_CAP ≤ s.collected.length + READ_SIZE) :
    ∃ events s', Run (ExecuteStep execution) s events s' ∧ s'.Choked := by
  have hlimit : STREAM_LIMIT = 65536 := rfl
  have hsize : READ_SIZE = 65536 := rfl
  have hfed : s.stdout.feed STREAM_LIMIT inPipe.length = { buffer := inPipe, paused := true } := by
    rw [hstdout, Pipe.feed, List.take_length, List.drop_length, List.nil_append]
    simp [show 2 * STREAM_LIMIT < inPipe.length by omega]
  let fed : ExecuteState := { s with stdout := { buffer := inPipe, paused := true } }
  have hfeed : ExecuteStep execution s (.feed .stdout inPipe.length) fed := by
    rw [ExecuteStep, executeStep, ExecuteState.pipe, ExecuteState.setPipe, hfed, hstdout]
    exact if_pos ⟨rfl, by omega, Nat.le_refl _, by rw [hlength]; decide⟩
  have hread : ExecuteStep execution fed .readStdout fed.collect := by
    have hsome : inPipe.length ≠ 0 := by omega
    rw [ExecuteStep, executeStep, hpoint]
    exact if_pos hsome
  refine ⟨[.feed .stdout inPipe.length, .readStdout], fed.collect, .cons hfeed (.single hread), ?_⟩
  have htake : (inPipe.take READ_SIZE).length = READ_SIZE := List.length_take_of_le (by omega)
  have hreached : STDOUT_BYTE_CAP ≤ (s.collected ++ inPipe.take READ_SIZE).length := by
    rwa [List.length_append, htake]
  have hleft : STREAM_LIMIT < (inPipe.drop READ_SIZE).length := by
    rw [List.length_drop]
    omega
  rw [ExecuteState.collect_of_le hreached]
  refine ⟨?_, ?_, rfl⟩
  · show ExecutePoint.wait true s.returncode.isSome = _
    rw [hrunning]
    rfl
  · show (true && decide (STREAM_LIMIT < (inPipe.drop READ_SIZE).length)) = true
    rw [decide_eq_true hleft]
    rfl

/-- **`execute` can hang**: a flood of its stdout chokes it. -/
theorem exists_choked (executable : String) (b : Byte) {capacity : Nat}
    (hcapacity : 3 * STREAM_LIMIT ≤ capacity) :
    ∃ process events s, Run (ExecuteStep { executable, process, capacity })
      (.start { executable, process, capacity }) events s ∧ s.Choked := by
  have hlimit : STREAM_LIMIT = 65536 := rfl
  have hsize : READ_SIZE = 65536 := rfl
  have hcap : STDOUT_BYTE_CAP = 16777216 := rfl
  let process : ChildProcess :=
    ⟨List.replicate (3 * STREAM_LIMIT + (STDOUT_BYTE_CAP - 1)) (.stdout, b), 0⟩
  let execution : Execution := { executable, process, capacity }
  obtain ⟨drips, hdrips⟩ : ∃ events, Run (ExecuteStep execution) (.start execution) events
      (dripping b (3 * STREAM_LIMIT) (0 + (STDOUT_BYTE_CAP - 1)) {}) :=
    exists_drips (show 0 < capacity by omega) b _ (STDOUT_BYTE_CAP - 1) 0 (by omega)
  obtain ⟨writes, hwrites⟩ := exists_filled execution b 0 (0 + (STDOUT_BYTE_CAP - 1))
    (3 * STREAM_LIMIT) {} (show 0 + 3 * STREAM_LIMIT ≤ capacity by omega)
  rw [Nat.zero_add (3 * STREAM_LIMIT)] at hwrites
  obtain ⟨floods, s, hfloods, hchoked⟩ := exists_choked_of_filled execution
    (dripping b 0 (0 + (STDOUT_BYTE_CAP - 1)) { inPipe := List.replicate (3 * STREAM_LIMIT) b })
    rfl rfl rfl List.length_replicate (by rw [dripping, List.length_replicate]; omega)
  exact ⟨process, _, s, (hdrips.append hwrites).append hfloods, hchoked⟩

end Choking

/-! ## A search that fails -/

/-- A search that writes a byte to each pipe and exits with 2; the pipes hold no more. -/
def failing : Execution where
  executable := "fd"
  process := { writes := [(.stdout, 97), (.stderr, 98)], exitCode := 2 }
  capacity := 1

/-- The state when the process has exited and its stderr is still to be read. -/
def failingExited : ExecuteState where
  pending := []
  status := some 2
  stdout := { disconnected := true }
  stderr := { inPipe := [98] }
  collected := [97]
  point := .wait false false

theorem failing_exits :
    Run (ExecuteStep failing) (.start failing)
      [.write, .write, .feed .stdout 1, .readStdout, .exit, .disconnect .stdout, .endOfStdout]
      failingExited :=
  .cons rfl <| .cons rfl <| .cons rfl <| .cons rfl <| .cons rfl <| .cons rfl <| .single rfl

/-- Seven steps were taken when the process has exited, and there is a way to the end. -/
theorem execute_ends_failing :
    7 ≤ 3 * failing.process.writes.length + 8 ∧
      ∃ events s, Run (ExecuteStep failing) failingExited events s ∧ s.Ended :=
  have h := execute_ends (by decide) failing_exits
  ⟨h.1, h.2.2.2 (by decide)⟩

end Executables

end Tile
