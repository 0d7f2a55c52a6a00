import Tile.Library.PipeReader
import Tile.Library.Run
import Tile.Text.Replacing
import Tile.Text.Splitlines
import Tile.ToolExecutor

/-!
# Tools/Support/Executables — the output of an executable, up to a cap

    process ──stdout pipe──▸ event loop ──▸ collected, up to the cap
            ──stderr pipe──▸ event loop ──▸ kept up to a cap, and drained

The process, the event loop, the coroutine that reads stdout and the task that reads stderr act at
any time; the pipes hold a bounded number of bytes, and a process that writes to a full one waits.

However they interleave, **what is returned is the process's whole output if it is below the cap,
and else the complete lines of a part of it that exceeds the cap by less than one read**
(`execute_result`).
-/

namespace Tile

namespace Executables

/-- Maximum stdout bytes collected before the subprocess is killed. -/
def STDOUT_BYTE_CAP : Nat := 16 * 1024 * 1024

/-- Maximum stderr bytes kept for failure messages; the rest is drained. -/
def STDERR_BYTE_CAP : Nat := 64 * 1024

/-- The most that one read gives. -/
def READ_SIZE : Nat := 65536

/-- `asyncio.streams._DEFAULT_LIMIT`. -/
def STREAM_LIMIT : Nat := 64 * 1024

/-- The most that the event loop takes from a pipe at once. -/
def MAX_SIZE : Nat := 256 * 1024

/-- The two pipes of a process. -/
inductive Descriptor where
  | stdout | stderr
  deriving Repr, DecidableEq

/-- What a process does when nobody stops it: the bytes it writes, in their order, and the code it
exits with. -/
structure ChildProcess where
  writes : List (Descriptor × Byte)
  exitCode : Int

/-- The bytes that go to one of the pipes. -/
def bytesTo (descriptor : Descriptor) (writes : List (Descriptor × Byte)) : Bytes :=
  (writes.filter (·.1 = descriptor)).map (·.2)

/-- All it writes to stdout. -/
def ChildProcess.stdout (process : ChildProcess) : Bytes := bytesTo .stdout process.writes

/-- All it writes to stderr. -/
def ChildProcess.stderr (process : ChildProcess) : Bytes := bytesTo .stderr process.writes

/-- Return an executable path or raise a clear tool availability error. -/
def requireExecutable (which : String → Option String) (command displayName : String) :
    Except String String :=
  match which command with
  | none => .error s!"{displayName} is not available."
  | some executable => .ok executable

theorem requireExecutable_eq_ok {which : String → Option String} {command displayName : String}
    {executable : String} :
    requireExecutable which command displayName = .ok executable ↔
      which command = some executable := by
  rw [requireExecutable]
  split <;> simp_all

/-- How `execute` was called. -/
structure Execution where
  executable : String
  allowedExitCodes : List Int := [0]
  process : ChildProcess
  /-- How much a pipe holds, with what the event loop took and has not fed yet. -/
  capacity : Nat

/-- `data.rfind(b"\n")`. -/
def rfindNewline (data : Bytes) : Option Nat :=
  (data.reverse.findIdx? (· = 10)).map fun fromEnd => data.length - 1 - fromEnd

/-- Decode capped output up to its last complete line. -/
def decodeCompleteLines (data : Bytes) (executable : String) : Except String Text :=
  match rfindNewline data with
  | none =>
    .error s!"{executable} output exceeded {STDOUT_BYTE_CAP} bytes without a complete line"
  | some last => .ok (Utf8.decodeReplacing (data.take (last + 1)))

/-- The message about an exit code that is not allowed. -/
def exitMessage (stderrBytes : Bytes) (executable : String) (exitCode : Int) : String :=
  let message := stripSpace (String.ofList (Utf8.decodeReplacing stderrBytes))
  if message = "" then s!"{executable} exited with code {exitCode}" else message

/-- What `execute` returns, or the message of the tool error it raises. -/
def executeResult (execution : Execution) (stdoutBytes stderrBytes : Bytes) (capped : Bool)
    (exitCode : Int) : Except String Text :=
  if capped then decodeCompleteLines stdoutBytes execution.executable
  else if exitCode ∉ execution.allowedExitCodes then
    .error (exitMessage stderrBytes execution.executable exitCode)
  else .ok (Utf8.decodeReplacing stdoutBytes)

/-! ## The processes -/

/-- The await at which `execute` is suspended. -/
inductive ExecutePoint where
  /-- `stream.read(65536)` of `_read_capped_stdout`. -/
  | readStdout
  /-- `process.wait()`, called when the return code was already `known` or not. -/
  | wait (capped known : Bool)
  /-- `stderr_task`. -/
  | stderrTask (capped : Bool) (exitCode : Int)
  | ended (result : Except String Text)

/-- The process, its pipes, and the coroutine and the task that read them. -/
structure ExecuteState where
  /-- What the process has still to write. -/
  pending : List (Descriptor × Byte)
  killed : Bool := false
  /-- The code the process has exited with. -/
  status : Option Int := none
  /-- `process.returncode`: set when the event loop is told. -/
  returncode : Option Int := none
  stdout : Pipe Byte := {}
  stderr : Pipe Byte := {}
  collected : Bytes := []
  kept : Bytes := []
  stderrDone : Bool := false
  point : ExecutePoint := .readStdout

/-- One step of the process, of the event loop or of a reader. -/
inductive ExecuteEvent where
  /-- The process writes its next byte. -/
  | write
  | exit
  /-- SIGKILL takes effect. -/
  | die
  /-- The child watcher tells the event loop. -/
  | report
  | feed (descriptor : Descriptor) (size : Nat)
  | disconnect (descriptor : Descriptor)
  | readStdout
  | readStderr
  /-- A read finds the end of the stream. -/
  | endOfStdout
  | endOfStderr
  /-- `process.wait()` completes. -/
  | reap
  /-- `stderr_task` completes. -/
  | finish
  deriving DecidableEq

namespace ExecuteState

/-- `execute` has returned or raised. -/
def Ended (s : ExecuteState) : Prop := ∃ result, s.point = .ended result

/-- `execute` waits for a process whose stdout is paused: nobody reads it any more, so that the
event loop never sees its end. -/
def Choked (s : ExecuteState) : Prop :=
  s.point = .wait true false ∧ s.stdout.paused = true ∧ s.stdout.disconnected = false

/-- Where `execute` starts, once there is a process. -/
def start (execution : Execution) : ExecuteState := { pending := execution.process.writes }

/-- The pipe of a descriptor. -/
def pipe (s : ExecuteState) : Descriptor → Pipe Byte
  | .stdout => s.stdout
  | .stderr => s.stderr

/-- The same state with another pipe of this descriptor. -/
def setPipe (s : ExecuteState) (p : Pipe Byte) : Descriptor → ExecuteState
  | .stdout => { s with stdout := p }
  | .stderr => { s with stderr := p }

/-- The loop of `_read_capped_stdout` on a chunk; at the cap it returns, and the process is killed
unless it is known to have exited. -/
def collect (s : ExecuteState) : ExecuteState :=
  let collected := s.collected ++ s.stdout.buffer.take READ_SIZE
  let s := { s with stdout := s.stdout.read STREAM_LIMIT READ_SIZE, collected }
  if STDOUT_BYTE_CAP ≤ collected.length then
    { s with killed := s.returncode.isNone, point := .wait true s.returncode.isSome }
  else s

theorem collect_of_le {s : ExecuteState}
    (h : STDOUT_BYTE_CAP ≤ (s.collected ++ s.stdout.buffer.take READ_SIZE).length) :
    s.collect = { s with
      stdout := s.stdout.read STREAM_LIMIT READ_SIZE
      collected := s.collected ++ s.stdout.buffer.take READ_SIZE
      killed := s.returncode.isNone
      point := .wait true s.returncode.isSome } := by
  rw [collect]
  exact if_pos h

theorem collect_of_lt {s : ExecuteState}
    (h : (s.collected ++ s.stdout.buffer.take READ_SIZE).length < STDOUT_BYTE_CAP) :
    s.collect = { s with
      stdout := s.stdout.read STREAM_LIMIT READ_SIZE
      collected := s.collected ++ s.stdout.buffer.take READ_SIZE } := by
  rw [collect]
  exact if_neg (Nat.not_le_of_lt h)

/-- The loop of `_read_capped_stderr` on a chunk. -/
def keep (s : ExecuteState) : ExecuteState :=
  let chunk := s.stderr.buffer.take READ_SIZE
  { s with
    stderr := s.stderr.read STREAM_LIMIT READ_SIZE
    kept := if s.kept.length < STDERR_BYTE_CAP then
      s.kept ++ chunk.take (STDERR_BYTE_CAP - s.kept.length) else s.kept }

end ExecuteState

/-- The state after an event, if it can happen. -/
def executeStep (execution : Execution) (s : ExecuteState) : ExecuteEvent → Option ExecuteState
  | .write => match s.pending with
    | [] => none
    | (descriptor, b) :: rest =>
      if s.status = none ∧ (s.pipe descriptor).inPipe.length < execution.capacity then
        some ({ s with pending := rest }.setPipe ((s.pipe descriptor).write b) descriptor)
      else none
  | .exit =>
    if s.status = none ∧ s.pending = [] then
      some { s with status := some execution.process.exitCode }
    else none
  | .die =>
    if s.status = none ∧ s.killed = true then some { s with status := some (-9), pending := [] }
    else none
  | .report => match s.status, s.returncode with
    | some exitCode, none => some { s with returncode := some exitCode }
    | _, _ => none
  | .feed descriptor size =>
    if (s.pipe descriptor).CanFeed MAX_SIZE size then
      some (s.setPipe ((s.pipe descriptor).feed STREAM_LIMIT size) descriptor)
    else none
  | .disconnect descriptor =>
    if s.status.isSome ∧ (s.pipe descriptor).CanDisconnect then
      some (s.setPipe (s.pipe descriptor).disconnect descriptor)
    else none
  | .readStdout => match s.point with
    | .readStdout => if s.stdout.buffer.length ≠ 0 then some s.collect else none
    | _ => none
  | .endOfStdout => match s.point with
    | .readStdout =>
      if s.stdout.AtEnd then some { s with point := .wait false s.returncode.isSome } else none
    | _ => none
  | .readStderr =>
    if s.stderrDone = false ∧ s.stderr.buffer.length ≠ 0 then some s.keep else none
  | .endOfStderr =>
    if s.stderrDone = false ∧ s.stderr.AtEnd then some { s with stderrDone := true } else none
  -- A wait that finds no return code is woken when the code is set and both pipes are disconnected.
  | .reap => match s.point, s.returncode with
    | .wait capped known, some exitCode =>
      if known ∨ (s.stdout.disconnected ∧ s.stderr.disconnected) then
        some { s with point := .stderrTask capped exitCode }
      else none
    | _, _ => none
  | .finish => match s.point with
    | .stderrTask capped exitCode =>
      if s.stderrDone then
        some { s with
          point := .ended (executeResult execution s.collected s.kept capped exitCode) }
      else none
    | _ => none

/-- The event can happen, and leads to this state. -/
def ExecuteStep (execution : Execution) (s : ExecuteState) (event : ExecuteEvent)
    (s' : ExecuteState) : Prop := executeStep execution s event = some s'

/-! ## Where the bytes are -/

/-- The bytes of a stream, in the order they were written: what was read of it, what is in its pipe
and what the process has still to write; a process that is killed may lose some. -/
def Flow (whole taken piped pending : Bytes) (killed : Bool) : Prop :=
  ∃ lost, whole = taken ++ piped ++ pending ++ lost ∧ (killed = false → lost = [])

namespace Flow

variable {whole taken piped pending : Bytes} {killed : Bool}

theorem start (whole : Bytes) : Flow whole [] [] whole false := ⟨[], by simp, fun _ => rfl⟩

theorem write {b : Byte} (h : Flow whole taken piped (b :: pending) killed) :
    Flow whole taken (piped ++ [b]) pending killed := by
  obtain ⟨lost, hwhole, hlost⟩ := h
  exact ⟨lost, by simpa using hwhole, hlost⟩

theorem read {p : Pipe Byte} (h : Flow whole taken p.content pending killed) (limit n : Nat) :
    Flow whole (taken ++ p.buffer.take n) (p.read limit n).content pending killed := by
  obtain ⟨lost, hwhole, hlost⟩ := h
  refine ⟨lost, ?_, hlost⟩
  rw [List.append_assoc taken, p.take_append_content_read, hwhole]

theorem kill (h : Flow whole taken piped pending false) (killed : Bool) :
    Flow whole taken piped pending killed := by
  obtain ⟨lost, hwhole, hlost⟩ := h
  exact ⟨lost, hwhole, fun _ => hlost rfl⟩

theorem die (h : Flow whole taken piped pending true) : Flow whole taken piped [] true := by
  obtain ⟨lost, hwhole, -⟩ := h
  exact ⟨pending ++ lost, by simpa using hwhole, fun h => by cases h⟩

theorem append_prefix (h : Flow whole taken piped pending killed) : taken ++ piped <+: whole := by
  obtain ⟨lost, hwhole, -⟩ := h
  exact ⟨pending ++ lost, by rw [hwhole, List.append_assoc (taken ++ piped)]⟩

theorem taken_prefix (h : Flow whole taken piped pending killed) : taken <+: whole :=
  (List.prefix_append taken piped).trans h.append_prefix

/-- Nothing in the pipe and nothing to come: all was read. -/
theorem eq_taken (h : Flow whole taken [] [] false) : taken = whole := by
  obtain ⟨lost, hwhole, hlost⟩ := h
  simpa [hlost rfl] using hwhole.symm

end Flow

theorem bytesTo_cons_self (descriptor : Descriptor) (b : Byte) (rest : List (Descriptor × Byte)) :
    bytesTo descriptor ((descriptor, b) :: rest) = b :: bytesTo descriptor rest := by
  simp [bytesTo]

theorem bytesTo_cons_of_ne {descriptor descriptor' : Descriptor} (h : descriptor' ≠ descriptor)
    (b : Byte) (rest : List (Descriptor × Byte)) :
    bytesTo descriptor ((descriptor', b) :: rest) = bytesTo descriptor rest := by
  simp [bytesTo, h]

/-- Both streams are accounted for; what is kept of stderr is what was read of it, up to the cap. -/
structure Streams (execution : Execution) (s : ExecuteState) : Prop where
  stdout : Flow execution.process.stdout s.collected s.stdout.content (bytesTo .stdout s.pending)
    s.killed
  stderr : ∃ taken, s.kept = taken.take STDERR_BYTE_CAP ∧
    Flow execution.process.stderr taken s.stderr.content (bytesTo .stderr s.pending) s.killed
  /-- A process that has exited writes no more; it exits with its code unless it is killed. -/
  exited : ∀ exitCode, s.status = some exitCode →
    s.pending = [] ∧ (s.killed = false → exitCode = execution.process.exitCode)
  reported : ∀ exitCode, s.returncode = some exitCode → s.status = some exitCode
  pipes : ∀ descriptor, (s.pipe descriptor).Sound STREAM_LIMIT (s.status.isSome = true)

/-- How the read of stdout ended. -/
def ReadEnded (s : ExecuteState) : (capped : Bool) → Prop
  | true => STDOUT_BYTE_CAP ≤ s.collected.length ∧
    s.collected.length < STDOUT_BYTE_CAP + READ_SIZE ∧ (s.status = none → s.killed = true)
  | false => s.killed = false ∧ s.collected.length < STDOUT_BYTE_CAP ∧ s.stdout.AtEnd

/-- What holds at each await. -/
def AtPoint (execution : Execution) (s : ExecuteState) : ExecutePoint → Prop
  | .readStdout => s.killed = false ∧ s.collected.length < STDOUT_BYTE_CAP
  | .wait capped _ => ReadEnded s capped
  | .stderrTask capped exitCode => ReadEnded s capped ∧ s.returncode = some exitCode
  | .ended result => ∃ capped exitCode, ReadEnded s capped ∧ s.returncode = some exitCode ∧
    s.stderrDone = true ∧ result = executeResult execution s.collected s.kept capped exitCode

/-- What holds at any time. -/
structure ExecuteInv (execution : Execution) (s : ExecuteState) : Prop extends
    Streams execution s where
  drained : s.stderrDone = true → s.stderr.AtEnd
  atPoint : AtPoint execution s s.point

section Steps

variable {execution : Execution} {s s' : ExecuteState} {event : ExecuteEvent}

theorem executeInv_start (execution : Execution) : ExecuteInv execution (.start execution) where
  stdout := .start _
  stderr := ⟨[], rfl, .start _⟩
  exited _ h := by cases h
  reported _ h := by cases h
  pipes descriptor := by cases descriptor <;> exact .start _ _
  drained h := by cases h
  atPoint := ⟨rfl, Nat.zero_lt_of_ne_zero (by decide)⟩

/-- The awaits are about what was read, whether the process was killed, what is known of its exit
and the ends of the streams; none of these is taken back. -/
theorem AtPoint.mono {point : ExecutePoint} (h : AtPoint execution s point)
    (hcollected : s'.collected = s.collected) (hkilled : s'.killed = s.killed)
    (hstatus : s'.status = none → s.status = none)
    (hreturncode : ∀ exitCode, s.returncode = some exitCode → s'.returncode = some exitCode)
    (hstdout : s.stdout.AtEnd → s'.stdout.AtEnd)
    (hstderr : s.stderrDone = true → s'.stderrDone = true ∧ s'.kept = s.kept) :
    AtPoint execution s' point := by
  have hread : ∀ capped, ReadEnded s capped → ReadEnded s' capped := by
    intro capped hread
    cases capped with
    | true => exact ⟨hcollected ▸ hread.1, hcollected ▸ hread.2.1,
        fun hrunning => hkilled.trans (hread.2.2 (hstatus hrunning))⟩
    | false => exact ⟨hkilled.trans hread.1, hcollected ▸ hread.2.1, hstdout hread.2.2⟩
  cases point with
  | readStdout => exact ⟨hkilled.trans h.1, hcollected ▸ h.2⟩
  | wait capped known => exact hread capped h
  | stderrTask capped exitCode => exact ⟨hread capped h.1, hreturncode exitCode h.2⟩
  | ended result =>
    obtain ⟨capped, exitCode, hended, hcode, hdone, hresult⟩ := h
    obtain ⟨hdone', hkept⟩ := hstderr hdone
    exact ⟨capped, exitCode, hread capped hended, hreturncode exitCode hcode, hdone',
      by rw [hresult, hcollected, hkept]⟩

/-- A pipe changes hands with its reader, and loses nothing. -/
theorem ExecuteInv.setPipe (hs : ExecuteInv execution s) {p : Pipe Byte} {descriptor : Descriptor}
    (hcontent : p.content = (s.pipe descriptor).content)
    (hsound : p.Sound STREAM_LIMIT (s.status.isSome = true))
    (hend : (s.pipe descriptor).AtEnd → p.AtEnd) :
    ExecuteInv execution (s.setPipe p descriptor) := by
  obtain ⟨⟨hstdout, ⟨taken, hkept, hstderr⟩, hexited, hreported, hpipes⟩, hdrained, hat⟩ := hs
  cases descriptor with
  | stdout =>
    refine ⟨⟨?_, ⟨taken, hkept, hstderr⟩, hexited, hreported, ?_⟩, hdrained,
      hat.mono rfl rfl id (fun _ => id) hend fun hdone => ⟨hdone, rfl⟩⟩
    · show Flow _ _ p.content _ _
      rwa [hcontent]
    · rintro (_ | _)
      · exact hsound
      · exact hpipes .stderr
  | stderr =>
    refine ⟨⟨hstdout, ⟨taken, hkept, ?_⟩, hexited, hreported, ?_⟩,
      fun hdone => hend (hdrained hdone),
      hat.mono rfl rfl id (fun _ => id) id fun hdone => ⟨hdone, rfl⟩⟩
    · show Flow _ _ p.content _ _
      rwa [hcontent]
    · rintro (_ | _)
      · exact hpipes .stdout
      · exact hsound

theorem write_inv (hs : ExecuteInv execution s) {descriptor : Descriptor} {b : Byte}
    {rest : List (Descriptor × Byte)} (hpending : s.pending = (descriptor, b) :: rest)
    (hrunning : s.status = none) :
    ExecuteInv execution
      ({ s with pending := rest }.setPipe ((s.pipe descriptor).write b) descriptor) := by
  obtain ⟨⟨hstdout, ⟨taken, hkept, hstderr⟩, -, hreported, hpipes⟩, hdrained, hat⟩ := hs
  rw [hpending] at hstdout hstderr
  have hopen : ¬ s.status.isSome = true := by simp [hrunning]
  have hexited : ∀ exitCode, s.status = some exitCode →
      rest = [] ∧ (s.killed = false → exitCode = execution.process.exitCode) := by
    intro exitCode hcode
    cases hrunning.symm.trans hcode
  -- The pipes of a running process have no end yet.
  have hnoEnd : ∀ descriptor, ¬ (s.pipe descriptor).AtEnd := fun descriptor hend =>
    hopen ((hpipes descriptor).disconnected hend.2).2
  cases descriptor with
  | stdout =>
    rw [bytesTo_cons_self] at hstdout
    rw [bytesTo_cons_of_ne (by decide)] at hstderr
    refine ⟨⟨?_, ⟨taken, hkept, hstderr⟩, hexited, hreported, ?_⟩, hdrained,
      hat.mono rfl rfl id (fun _ => id) (fun h => absurd h (hnoEnd .stdout))
        fun hdone => ⟨hdone, rfl⟩⟩
    · show Flow _ _ (s.stdout.write b).content _ _
      rw [Pipe.content_write]
      exact hstdout.write
    · rintro (_ | _)
      · exact (hpipes .stdout).write hopen b
      · exact hpipes .stderr
  | stderr =>
    rw [bytesTo_cons_of_ne (by decide)] at hstdout
    rw [bytesTo_cons_self] at hstderr
    refine ⟨⟨hstdout, ⟨taken, hkept, ?_⟩, hexited, hreported, ?_⟩,
      fun hdone => absurd (hdrained hdone) (hnoEnd .stderr),
      hat.mono rfl rfl id (fun _ => id) id fun hdone => ⟨hdone, rfl⟩⟩
    · show Flow _ _ (s.stderr.write b).content _ _
      rw [Pipe.content_write]
      exact hstderr.write
    · rintro (_ | _)
      · exact hpipes .stdout
      · exact (hpipes .stderr).write hopen b

theorem collect_inv (hs : ExecuteInv execution s) (hpoint : s.point = .readStdout) :
    ExecuteInv execution s.collect := by
  obtain ⟨⟨hstdout, ⟨taken, hkept, hstderr⟩, hexited, hreported, hpipes⟩, hdrained, hat⟩ := hs
  rw [hpoint] at hat
  obtain ⟨hkilled, hbelow⟩ := hat
  have hsize : (s.collected ++ s.stdout.buffer.take READ_SIZE).length ≤
      s.collected.length + READ_SIZE := by
    rw [List.length_append]
    exact Nat.add_le_add_left (List.length_take_le ..) _
  have hread := hstdout.read STREAM_LIMIT READ_SIZE
  have hsound : ∀ descriptor, (({ s with
      stdout := s.stdout.read STREAM_LIMIT READ_SIZE } : ExecuteState).pipe descriptor).Sound
        STREAM_LIMIT (s.status.isSome = true) := by
    rintro (_ | _)
    · exact (hpipes .stdout).read READ_SIZE
    · exact hpipes .stderr
  by_cases hcap : STDOUT_BYTE_CAP ≤ (s.collected ++ s.stdout.buffer.take READ_SIZE).length
  · rw [ExecuteState.collect_of_le hcap]
    rw [hkilled] at hread hstderr
    refine ⟨⟨hread.kill _, ⟨taken, hkept, hstderr.kill _⟩, ?_, hreported, ?_⟩, hdrained, hcap,
      ?_, ?_⟩
    · intro exitCode hcode
      exact ⟨(hexited exitCode hcode).1, fun _ => (hexited exitCode hcode).2 hkilled⟩
    · rintro (_ | _)
      · exact hsound .stdout
      · exact hsound .stderr
    · show (s.collected ++ s.stdout.buffer.take READ_SIZE).length < STDOUT_BYTE_CAP + READ_SIZE
      omega
    · intro hrunning
      cases hcode : s.returncode with
      | none => rfl
      | some exitCode => cases hrunning.symm.trans (hreported exitCode hcode)
  · rw [ExecuteState.collect_of_lt (Nat.lt_of_not_le hcap)]
    refine ⟨⟨hread, ⟨taken, hkept, hstderr⟩, hexited, hreported, ?_⟩, hdrained, ?_⟩
    · rintro (_ | _)
      · exact hsound .stdout
      · exact hsound .stderr
    · show AtPoint execution _ s.point
      rw [hpoint]
      exact ⟨hkilled, Nat.lt_of_not_le hcap⟩

theorem keep_inv (hs : ExecuteInv execution s) (hdone : s.stderrDone = false) :
    ExecuteInv execution s.keep := by
  obtain ⟨⟨hstdout, ⟨taken, hkept, hstderr⟩, hexited, hreported, hpipes⟩, hdrained, hat⟩ := hs
  have hnotDone : s.stderrDone = true → False := fun h => by cases hdone.symm.trans h
  refine ⟨⟨hstdout, ⟨taken ++ s.stderr.buffer.take READ_SIZE, ?_,
    hstderr.read STREAM_LIMIT READ_SIZE⟩, hexited, hreported, ?_⟩, fun h => (hnotDone h).elim,
    hat.mono rfl rfl id (fun _ => id) id fun h => (hnotDone h).elim⟩
  · show (if s.kept.length < STDERR_BYTE_CAP then
      s.kept ++ (s.stderr.buffer.take READ_SIZE).take (STDERR_BYTE_CAP - s.kept.length)
      else s.kept) = _
    rw [hkept, List.take_append, List.length_take]
    split
    next hroom =>
      rw [Nat.min_eq_right (by omega)]
    next hfull =>
      rw [Nat.sub_eq_zero_of_le (by omega), List.take_zero, List.append_nil]
  · rintro (_ | _)
    · exact hpipes .stdout
    · exact (hpipes .stderr).read READ_SIZE

/-- What becomes known of the exit. -/
theorem ExecuteInv.exits (hs : ExecuteInv execution s) (hrunning : s.status = none) {status : Int}
    {pending : List (Descriptor × Byte)}
    (hstdout : Flow execution.process.stdout s.collected s.stdout.content
      (bytesTo .stdout pending) s.killed)
    (hstderr : ∃ taken, s.kept = taken.take STDERR_BYTE_CAP ∧
      Flow execution.process.stderr taken s.stderr.content (bytesTo .stderr pending) s.killed)
    (hpending : pending = []) (hcode : s.killed = false → status = execution.process.exitCode) :
    ExecuteInv execution { s with status := some status, pending } := by
  refine ⟨⟨hstdout, hstderr, fun exitCode hexit => ⟨hpending, fun hkilled => ?_⟩,
    fun exitCode hreported => ?_, fun descriptor => ?_⟩, hs.drained,
    hs.atPoint.mono rfl rfl (fun h => by cases h) (fun _ => id) id fun hdone => ⟨hdone, rfl⟩⟩
  · exact (Option.some.inj hexit).symm.trans (hcode hkilled)
  · cases hrunning.symm.trans (hs.reported exitCode hreported)
  · have hsound := (hs.pipes descriptor).mono fun _ => (rfl : (some status).isSome = true)
    cases descriptor <;> exact hsound

/-- **What each event does**, and when it can happen. -/
theorem ExecuteStep.does (h : ExecuteStep execution s event s') :
    match event with
    | .write => ∃ descriptor b rest, s.pending = (descriptor, b) :: rest ∧ s.status = none ∧
      (s.pipe descriptor).inPipe.length < execution.capacity ∧
      s' = { s with pending := rest }.setPipe ((s.pipe descriptor).write b) descriptor
    | .exit => s.status = none ∧ s.pending = [] ∧
      s' = { s with status := some execution.process.exitCode }
    | .die => s.status = none ∧ s.killed = true ∧ s' = { s with status := some (-9), pending := [] }
    | .report => ∃ exitCode, s.status = some exitCode ∧ s.returncode = none ∧
      s' = { s with returncode := some exitCode }
    | .feed descriptor size => (s.pipe descriptor).CanFeed MAX_SIZE size ∧
      s' = s.setPipe ((s.pipe descriptor).feed STREAM_LIMIT size) descriptor
    | .disconnect descriptor => s.status.isSome = true ∧ (s.pipe descriptor).CanDisconnect ∧
      s' = s.setPipe (s.pipe descriptor).disconnect descriptor
    | .readStdout => s.point = .readStdout ∧ s.stdout.buffer.length ≠ 0 ∧ s' = s.collect
    | .endOfStdout => s.point = .readStdout ∧ s.stdout.AtEnd ∧
      s' = { s with point := .wait false s.returncode.isSome }
    | .readStderr => s.stderrDone = false ∧ s.stderr.buffer.length ≠ 0 ∧ s' = s.keep
    | .endOfStderr => s.stderrDone = false ∧ s.stderr.AtEnd ∧ s' = { s with stderrDone := true }
    | .reap => ∃ capped known exitCode, s.point = .wait capped known ∧
      s.returncode = some exitCode ∧
      (known = true ∨ s.stdout.disconnected = true ∧ s.stderr.disconnected = true) ∧
      s' = { s with point := .stderrTask capped exitCode }
    | .finish => ∃ capped exitCode, s.point = .stderrTask capped exitCode ∧ s.stderrDone = true ∧
      s' = { s with
        point := .ended (executeResult execution s.collected s.kept capped exitCode) } := by
  rw [ExecuteStep] at h
  cases event with
  | exit | die | disconnect _ | readStderr | endOfStderr =>
    obtain ⟨⟨hfirst, hsecond⟩, h⟩ := Option.ite_none_right_eq_some.mp h
    exact ⟨hfirst, hsecond, (Option.some.inj h).symm⟩
  | feed descriptor size =>
    obtain ⟨hfeed, h⟩ := Option.ite_none_right_eq_some.mp h
    exact ⟨hfeed, (Option.some.inj h).symm⟩
  | write =>
    rw [executeStep] at h
    split at h
    · cases h
    next descriptor b rest hpending =>
      obtain ⟨⟨hrunning, hroom⟩, h⟩ := Option.ite_none_right_eq_some.mp h
      exact ⟨descriptor, b, rest, hpending, hrunning, hroom, (Option.some.inj h).symm⟩
  | report =>
    rw [executeStep] at h
    split at h
    next exitCode hstatus hcode => exact ⟨exitCode, hstatus, hcode, (Option.some.inj h).symm⟩
    · cases h
  | readStdout | endOfStdout =>
    rw [executeStep] at h
    split at h
    next hpoint =>
      obtain ⟨hreads, h⟩ := Option.ite_none_right_eq_some.mp h
      exact ⟨hpoint, hreads, (Option.some.inj h).symm⟩
    · cases h
  | reap =>
    rw [executeStep] at h
    split at h
    next capped known exitCode hpoint hcode =>
      obtain ⟨hwoken, h⟩ := Option.ite_none_right_eq_some.mp h
      exact ⟨capped, known, exitCode, hpoint, hcode, hwoken, (Option.some.inj h).symm⟩
    · cases h
  | finish =>
    rw [executeStep] at h
    split at h
    next capped exitCode hpoint =>
      obtain ⟨hdone, h⟩ := Option.ite_none_right_eq_some.mp h
      exact ⟨capped, exitCode, hpoint, hdone, (Option.some.inj h).symm⟩
    · cases h

/-- **What each event keeps.** -/
theorem ExecuteStep.inv (h : ExecuteStep execution s event s') (hs : ExecuteInv execution s) :
    ExecuteInv execution s' := by
  have hdoes := h.does
  have hat := hs.atPoint
  cases event with
  | write =>
    obtain ⟨descriptor, b, rest, hpending, hrunning, -, rfl⟩ := hdoes
    exact write_inv hs hpending hrunning
  | exit =>
    obtain ⟨hrunning, hpending, rfl⟩ := hdoes
    exact hs.exits hrunning hs.stdout hs.stderr hpending fun _ => rfl
  | die =>
    obtain ⟨hrunning, hkilled, rfl⟩ := hdoes
    have hstdout := hs.stdout
    obtain ⟨taken, hkept, hstderr⟩ := hs.stderr
    refine hs.exits hrunning ?_ ⟨taken, hkept, ?_⟩ rfl fun h => ?_
    · rw [hkilled] at hstdout ⊢
      exact hstdout.die
    · rw [hkilled] at hstderr ⊢
      exact hstderr.die
    · cases hkilled.symm.trans h
  | report =>
    obtain ⟨exitCode, hstatus, hcode, rfl⟩ := hdoes
    refine ⟨⟨hs.stdout, hs.stderr, hs.exited, fun _ h => h ▸ hstatus, fun descriptor => ?_⟩,
      hs.drained, hat.mono rfl rfl id (fun _ h => ?_) id fun hdone => ⟨hdone, rfl⟩⟩
    · have hsound := hs.pipes descriptor
      cases descriptor <;> exact hsound
    · cases hcode.symm.trans h
  | feed descriptor size =>
    obtain ⟨hfeed, rfl⟩ := hdoes
    have hsound := hs.pipes descriptor
    exact hs.setPipe (Pipe.content_feed ..) (hsound.feed hfeed)
      fun hend => absurd hfeed (hsound.not_canFeed hend)
  | disconnect descriptor =>
    obtain ⟨hexited, hend, rfl⟩ := hdoes
    exact hs.setPipe (Pipe.content_disconnect _) ((hs.pipes descriptor).disconnect hend hexited)
      fun hatEnd => ⟨hatEnd.1, rfl⟩
  | readStdout =>
    obtain ⟨hpoint, -, rfl⟩ := hdoes
    exact collect_inv hs hpoint
  | readStderr =>
    obtain ⟨hdone, -, rfl⟩ := hdoes
    exact keep_inv hs hdone
  | endOfStdout =>
    obtain ⟨hpoint, hend, rfl⟩ := hdoes
    rw [hpoint] at hat
    exact ⟨⟨hs.stdout, hs.stderr, hs.exited, hs.reported, hs.pipes⟩, hs.drained, hat.1, hat.2, hend⟩
  | endOfStderr =>
    obtain ⟨hdone, hend, rfl⟩ := hdoes
    exact ⟨⟨hs.stdout, hs.stderr, hs.exited, hs.reported, hs.pipes⟩, fun _ => hend,
      hat.mono rfl rfl id (fun _ => id) id fun _ => ⟨rfl, rfl⟩⟩
  | reap =>
    obtain ⟨capped, known, exitCode, hpoint, hcode, -, rfl⟩ := hdoes
    rw [hpoint] at hat
    exact ⟨⟨hs.stdout, hs.stderr, hs.exited, hs.reported, hs.pipes⟩, hs.drained, hat, hcode⟩
  | finish =>
    obtain ⟨capped, exitCode, hpoint, hdone, rfl⟩ := hdoes
    rw [hpoint] at hat
    exact ⟨⟨hs.stdout, hs.stderr, hs.exited, hs.reported, hs.pipes⟩, hs.drained, capped, exitCode,
      hat.1, hat.2, hdone, rfl⟩

end Steps

/-! ## What is returned -/

section Runs

variable {execution : Execution} {s s' : ExecuteState} {events : List ExecuteEvent}
  {event : ExecuteEvent}

theorem executeInv_of_run (h : Run (ExecuteStep execution) (.start execution) events s) :
    ExecuteInv execution s :=
  h.invariant (fun hstep hs => hstep.inv hs) (executeInv_start execution)

/-- The end of both streams: all was read, and the process exited by itself. -/
theorem ExecuteInv.whole (hs : ExecuteInv execution s) (hread : ReadEnded s false) {exitCode : Int}
    (hcode : s.returncode = some exitCode) (hdone : s.stderrDone = true) :
    s.collected = execution.process.stdout ∧
      s.kept = execution.process.stderr.take STDERR_BYTE_CAP ∧
      exitCode = execution.process.exitCode := by
  obtain ⟨hkilled, -, hend⟩ := hread
  obtain ⟨hpending, hexit⟩ := hs.exited exitCode (hs.reported exitCode hcode)
  have hstdout := hs.stdout
  obtain ⟨taken, hkept, hstderr⟩ := hs.stderr
  have hout : s.stdout.content = [] := (hs.pipes .stdout).content_of_atEnd hend
  have herr : s.stderr.content = [] := (hs.pipes .stderr).content_of_atEnd (hs.drained hdone)
  rw [hkilled, hpending, hout] at hstdout
  rw [hkilled, hpending, herr] at hstderr
  exact ⟨hstdout.eq_taken, hstderr.eq_taken ▸ hkept, hexit hkilled⟩

/-- **What `execute` returns**, however the process and the two readers interleave. -/
theorem execute_result (h : Run (ExecuteStep execution) (.start execution) events s)
    {result : Except String Text} (hended : s.point = .ended result) :
    (execution.process.stdout.length < STDOUT_BYTE_CAP ∧
      result = if execution.process.exitCode ∈ execution.allowedExitCodes then
        .ok (Utf8.decodeReplacing execution.process.stdout)
      else .error (exitMessage (execution.process.stderr.take STDERR_BYTE_CAP)
        execution.executable execution.process.exitCode)) ∨
    (∃ data, data <+: execution.process.stdout ∧ STDOUT_BYTE_CAP ≤ data.length ∧
      data.length < STDOUT_BYTE_CAP + READ_SIZE ∧
      result = decodeCompleteLines data execution.executable) := by
  have hs := executeInv_of_run h
  have hat := hs.atPoint
  rw [hended] at hat
  obtain ⟨capped, exitCode, hread, hcode, hdone, hresult⟩ := hat
  cases capped with
  | false =>
    obtain ⟨hcollected, hkept, hexit⟩ := hs.whole hread hcode hdone
    refine .inl ⟨hcollected ▸ hread.2.1, ?_⟩
    rw [hresult, hcollected, hkept, hexit, executeResult, if_neg (by decide), ite_not]
  | true => exact .inr ⟨s.collected, hs.stdout.taken_prefix, hread.1, hread.2.1, hresult⟩

end Runs

end Executables

end Tile
