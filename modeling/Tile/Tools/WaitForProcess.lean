import Tile.Library.Run
import Tile.Tools.Support.OutputAccumulator

/-!
# Tools/WaitForProcess — waiting for a shell command

The process and its pipe, the timer and a canceller act at any time.  The coroutine that waits for
the process goes from await to await: it leaves the first one when the process is reaped, or at the
timeout, after which the process is terminated and, a second later, killed.  A cancellation takes it
to the clause that drains the pipe, **past all that would stop the process**
(`running_of_cancelled`).
-/

namespace Tile

namespace Bash

inductive TaskState where
  | pending | done | cancelled
  deriving DecidableEq

/-- `task.cancel()`. -/
def TaskState.cancel : TaskState → TaskState
  | .pending => .cancelled
  | task => task

/-- How `_wait_for_process` ends: it returns, or the cancellation goes on. -/
inductive WaitOutcome where
  | returned (snapshot : OutputSnapshot) (timedOut : Bool)
  | cancelled
  deriving DecidableEq

/-- The await at which the coroutine is suspended. -/
inductive WaitPoint where
  /-- `asyncio.wait_for(asyncio.shield(wait_task), timeout)`. -/
  | waitFor
  /-- `asyncio.wait({wait_task}, timeout=1)`, once the process is terminated. -/
  | grace
  /-- `wait_task`, once the process is killed. -/
  | waitTask
  /-- `output_task`, in the `finally` clause, which a cancellation may have entered. -/
  | outputTask (cancelled : Bool)
  | ended (outcome : WaitOutcome)
  deriving DecidableEq

structure WaitState where
  running : Bool := true
  pipeClosed : Bool := false
  outputTask : TaskState := .pending
  waitTask : TaskState := .pending
  output : OutputAccumulator := {}
  timedOut : Bool := false
  point : WaitPoint := .waitFor

/-- What can happen next. -/
inductive WaitEvent where
  /-- The process exits, because it is done or because it honours SIGTERM. -/
  | exit
  | closePipe
  | readChunk (chunk : Bytes)
  | readEof
  /-- `process.wait()` completes. -/
  | reap
  | timeout
  | graceOver
  /-- The coroutine goes on with what it awaited. -/
  | resume
  | cancel
  deriving DecidableEq

/-- The coroutine goes on with what it awaited. -/
def WaitState.resume (s : WaitState) : Option WaitState :=
  match s.point with
  | .waitFor | .grace | .waitTask =>
    if s.waitTask = .done then some { s with point := .outputTask false } else none
  | .outputTask cancelled =>
    if s.outputTask = .done then
      let outcome := if cancelled then .cancelled else .returned s.output.finish.1 s.timedOut
      some { s with point := .ended outcome }
    else none
  | .ended _ => none

/-- The coroutine is cancelled, and with it the task that it awaits; a task that is shielded, or in
a set of tasks, is not. -/
def WaitState.cancel (s : WaitState) : Option WaitState :=
  match s.point with
  | .waitFor | .grace => some { s with point := .outputTask true }
  | .waitTask => some { s with waitTask := s.waitTask.cancel, point := .outputTask true }
  | .outputTask _ => some { s with outputTask := s.outputTask.cancel, point := .ended .cancelled }
  | .ended _ => none

/-- The state after an event, if it can happen.  SIGTERM leaves it to the process to exit; SIGKILL
does not. -/
def waitStep (s : WaitState) : WaitEvent → Option WaitState
  | .exit => if s.running then some { s with running := false } else none
  | .closePipe => some { s with pipeClosed := true }
  | .readChunk chunk =>
    if s.outputTask = .pending then
      (s.output.accumulate chunk).toOption.map fun output => { s with output }
    else none
  | .readEof =>
    if s.outputTask = .pending ∧ s.pipeClosed then some { s with outputTask := .done } else none
  | .reap =>
    if s.waitTask = .pending ∧ s.running = false then some { s with waitTask := .done } else none
  | .timeout =>
    if s.point = .waitFor then some { s with timedOut := true, point := .grace } else none
  | .graceOver =>
    if s.point = .grace ∧ s.waitTask = .pending then
      some { s with running := false, point := .waitTask }
    else none
  | .resume => s.resume
  | .cancel => s.cancel

/-- The event can happen, and leads to this state. -/
def WaitStep (s : WaitState) (event : WaitEvent) (s' : WaitState) : Prop :=
  waitStep s event = some s'

/-- A step that does not cancel the coroutine while the process is running. -/
def CarefulStep (s : WaitState) (event : WaitEvent) (s' : WaitState) : Prop :=
  WaitStep s event s' ∧ (event = .cancel → s.running = false)

/-- The coroutine is past all that stops the process. -/
def WaitPoint.isPast : WaitPoint → Bool
  | .waitFor | .grace => false
  | .waitTask | .outputTask _ | .ended _ => true

def WaitPoint.isEnded : WaitPoint → Bool
  | .ended _ => true
  | _ => false

theorem WaitPoint.isPast_of_isEnded {point : WaitPoint} (h : point.isEnded = true) :
    point.isPast = true := by
  rcases point with - | - | - | cancelled | outcome
  iterate 4 cases h
  rfl

/-! ## What a step can do -/

section Steps

variable {s s' : WaitState} {event : WaitEvent}

theorem of_guard {α : Type} {p : Prop} [Decidable p] {a b : α}
    (h : (if p then some a else none) = some b) : p ∧ b = a := by
  rw [Option.ite_none_right_eq_some, Option.some.injEq] at h
  exact ⟨h.1, h.2.symm⟩

theorem resume_cases (h : s.resume = some s') :
    (s.waitTask = .done ∧ s.point.isEnded = false ∧ s' = { s with point := .outputTask false }) ∨
    ∃ cancelled outcome, s.point = .outputTask cancelled ∧ s.outputTask = .done ∧
      s' = { s with point := .ended outcome } := by
  rw [WaitState.resume] at h
  rcases hpoint : s.point with - | - | - | cancelled | outcome <;> rw [hpoint] at h
  iterate 3
    obtain ⟨hdone, rfl⟩ := of_guard h
    exact .inl ⟨hdone, rfl, rfl⟩
  · obtain ⟨hdone, rfl⟩ := of_guard h
    exact .inr ⟨cancelled, _, rfl, hdone, rfl⟩
  · cases h

theorem cancel_cases (h : s.cancel = some s') :
    (∃ task, (task = .done → s.waitTask = .done) ∧ s.point.isEnded = false ∧
      s' = { s with waitTask := task, point := .outputTask true }) ∨
    ∃ cancelled, s.point = .outputTask cancelled ∧
      s' = { s with outputTask := s.outputTask.cancel, point := .ended .cancelled } := by
  have hdone : s.waitTask.cancel = .done → s.waitTask = .done := by
    rcases s.waitTask with - | - | - <;> simp [TaskState.cancel]
  rw [WaitState.cancel] at h
  rcases hpoint : s.point with - | - | - | cancelled | outcome <;> rw [hpoint] at h
  · exact .inl ⟨s.waitTask, id, rfl, (Option.some.inj h).symm⟩
  · exact .inl ⟨s.waitTask, id, rfl, (Option.some.inj h).symm⟩
  · exact .inl ⟨s.waitTask.cancel, hdone, rfl, (Option.some.inj h).symm⟩
  · exact .inr ⟨cancelled, rfl, (Option.some.inj h).symm⟩
  · cases h

/-- What holds after any steps. -/
structure WaitInv (s : WaitState) : Prop where
  reaped : s.waitTask = .done → s.running = false
  killed : s.point = .waitTask → s.running = false
  read : s.point.isEnded = false → s.outputTask ≠ .cancelled

theorem waitInv_start : WaitInv {} :=
  ⟨fun h => (by cases h), fun h => (by cases h), fun _ h => (by cases h)⟩

theorem WaitStep.inv (h : WaitStep s event s') (hs : WaitInv s) : WaitInv s' := by
  rw [WaitStep] at h
  cases event with
  | exit =>
    obtain ⟨-, rfl⟩ := of_guard h
    exact ⟨fun _ => rfl, fun _ => rfl, hs.read⟩
  | closePipe =>
    obtain rfl := Option.some.inj h
    exact ⟨hs.reaped, hs.killed, hs.read⟩
  | readChunk chunk =>
    obtain ⟨-, h⟩ := Option.ite_none_right_eq_some.mp h
    obtain ⟨output, -, rfl⟩ := Option.map_eq_some_iff.mp h
    exact ⟨hs.reaped, hs.killed, hs.read⟩
  | readEof =>
    obtain ⟨-, rfl⟩ := of_guard h
    exact ⟨hs.reaped, hs.killed, fun _ h => (by cases h)⟩
  | reap =>
    obtain ⟨⟨-, hexited⟩, rfl⟩ := of_guard h
    exact ⟨fun _ => hexited, hs.killed, hs.read⟩
  | timeout =>
    obtain ⟨hpoint, rfl⟩ := of_guard h
    exact ⟨hs.reaped, fun h => (by cases h), fun _ => hs.read (by rw [hpoint]; rfl)⟩
  | graceOver =>
    obtain ⟨⟨hpoint, -⟩, rfl⟩ := of_guard h
    exact ⟨fun _ => rfl, fun _ => rfl, fun _ => hs.read (by rw [hpoint]; rfl)⟩
  | resume =>
    rcases resume_cases h with ⟨-, hrest, rfl⟩ | ⟨cancelled, outcome, -, -, rfl⟩
    · exact ⟨hs.reaped, fun h => (by cases h), fun _ => hs.read hrest⟩
    · exact ⟨hs.reaped, fun h => (by cases h), fun h => (by cases h)⟩
  | cancel =>
    rcases cancel_cases h with ⟨task, htask, hrest, rfl⟩ | ⟨cancelled, -, rfl⟩
    · exact ⟨fun h => hs.reaped (htask h), fun h => (by cases h), fun _ => hs.read hrest⟩
    · exact ⟨hs.reaped, fun h => (by cases h), fun h => (by cases h)⟩

/-- **Past all that stops the process**, it has exited. -/
theorem CarefulStep.exited (h : CarefulStep s event s') (hinv : WaitInv s)
    (hs : s.point.isPast = true → s.running = false) :
    s'.point.isPast = true → s'.running = false := by
  obtain ⟨h, hcareful⟩ := h
  rw [WaitStep] at h
  cases event with
  | exit =>
    obtain ⟨-, rfl⟩ := of_guard h
    exact fun _ => rfl
  | closePipe =>
    obtain rfl := Option.some.inj h
    exact hs
  | readChunk chunk =>
    obtain ⟨-, h⟩ := Option.ite_none_right_eq_some.mp h
    obtain ⟨output, -, rfl⟩ := Option.map_eq_some_iff.mp h
    exact hs
  | readEof =>
    obtain ⟨-, rfl⟩ := of_guard h
    exact hs
  | reap =>
    obtain ⟨-, rfl⟩ := of_guard h
    exact hs
  | timeout =>
    obtain ⟨-, rfl⟩ := of_guard h
    exact fun h => (by cases h)
  | graceOver =>
    obtain ⟨-, rfl⟩ := of_guard h
    exact fun _ => rfl
  | resume =>
    rcases resume_cases h with ⟨hdone, -, rfl⟩ | ⟨cancelled, outcome, hpoint, -, rfl⟩
    · exact fun _ => hinv.reaped hdone
    · exact fun _ => hs (by rw [hpoint]; rfl)
  | cancel =>
    have hexited := hcareful rfl
    rcases cancel_cases h with ⟨task, -, -, rfl⟩ | ⟨cancelled, -, rfl⟩
    · exact fun _ => hexited
    · exact fun _ => hexited

theorem resume_of_read {cancelled : Bool} (hpoint : s.point = .outputTask cancelled)
    (hdone : s.outputTask = .done) :
    ∃ outcome, WaitStep s .resume { s with point := .ended outcome } := by
  refine ⟨if cancelled then .cancelled else .returned s.output.finish.1 s.timedOut, ?_⟩
  rw [WaitStep, waitStep, WaitState.resume, hpoint]
  exact if_pos hdone

/-- In the `finally` clause, the coroutine waits for the pipe to be closed, not for the process. -/
theorem exists_ended (hinv : WaitInv s) {cancelled : Bool}
    (hpoint : s.point = .outputTask cancelled) :
    ∃ events ended, Run WaitStep s events ended ∧ .cancel ∉ events ∧
      ended.point.isEnded = true ∧ ended.running = s.running := by
  rcases htask : s.outputTask with - | - | -
  · have hread : Run WaitStep s [.closePipe, .readEof]
        { s with pipeClosed := true, outputTask := .done } := by
      refine .cons rfl (.single ?_)
      rw [WaitStep, waitStep, htask]
      rfl
    obtain ⟨outcome, hresume⟩ :=
      resume_of_read (s := { s with pipeClosed := true, outputTask := .done }) hpoint rfl
    exact ⟨_, _, hread.snoc hresume, by simp, rfl, rfl⟩
  · obtain ⟨outcome, hresume⟩ := resume_of_read hpoint htask
    exact ⟨_, _, .single hresume, by simp, rfl, rfl⟩
  · exact absurd htask (hinv.read (by rw [hpoint]; rfl))

/-- **A cancellation takes the coroutine past all that stops the process**: while it is running, the
coroutine can end without it. -/
theorem running_of_cancelled (hinv : WaitInv s) (h : WaitStep s .cancel s')
    (hrunning : s.running = true) :
    ∃ events ended, Run WaitStep s' events ended ∧ .cancel ∉ events ∧
      ended.point.isEnded = true ∧ ended.running = true := by
  have hinv' := h.inv hinv
  rcases cancel_cases h with ⟨task, -, -, rfl⟩ | ⟨cancelled, -, rfl⟩
  · obtain ⟨events, ended, hrun, hcancel, hended, hstill⟩ := exists_ended hinv' rfl
    exact ⟨events, ended, hrun, hcancel, hended, hstill.trans hrunning⟩
  · exact ⟨[], _, .nil _, List.not_mem_nil, rfl, hrunning⟩

end Steps

/-- **When the process has exited at the end**: in every run in which no cancellation comes while
the process is running.  After the first one that does, the coroutine can end with the process
running. -/
theorem exited_of_careful {events : List WaitEvent} {s : WaitState}
    (h : Run CarefulStep {} events s) :
    (s.point.isEnded = true → s.running = false) ∧
      ∀ s', s.running = true → WaitStep s .cancel s' →
        ∃ events' ended, Run WaitStep s' events' ended ∧ .cancel ∉ events' ∧
          ended.point.isEnded = true ∧ ended.running = true := by
  obtain ⟨hinv, hexited⟩ := h.invariant
    (P := fun s => WaitInv s ∧ (s.point.isPast = true → s.running = false))
    (fun hstep hs => ⟨hstep.1.inv hs.1, hstep.exited hs.1 hs.2⟩)
    ⟨waitInv_start, fun h => Bool.noConfusion h⟩
  exact ⟨fun hended => hexited (WaitPoint.isPast_of_isEnded hended),
    fun s' hrunning hcancel => running_of_cancelled hinv hcancel hrunning⟩

/-- SIGTERM is ignored, and the process is killed after the second of grace. -/
theorem exited_of_careful_killed : ∃ ended,
    Run CarefulStep {} [.timeout, .graceOver, .reap, .resume, .closePipe, .readEof, .resume] ended ∧
      ended.point = .ended (.returned ended.output.finish.1 true) ∧ ended.running = false := by
  have hcareful : ∀ {s s' : WaitState} {event : WaitEvent}, event ≠ .cancel →
      WaitStep s event s' → CarefulStep s event s' := fun hne h => ⟨h, fun heq => absurd heq hne⟩
  have hrun : Run CarefulStep {}
      [.timeout, .graceOver, .reap, .resume, .closePipe, .readEof, .resume]
      { running := false, pipeClosed := true, outputTask := .done, waitTask := .done,
        timedOut := true,
        point := .ended (.returned ({} : OutputAccumulator).finish.1 true) } :=
    .cons (hcareful (by decide) rfl) <| .cons (hcareful (by decide) rfl) <|
      .cons (hcareful (by decide) rfl) <| .cons (hcareful (by decide) rfl) <|
      .cons (hcareful (by decide) rfl) <| .cons (hcareful (by decide) rfl) <|
      .single (hcareful (by decide) rfl)
  exact ⟨_, hrun, rfl, (exited_of_careful hrun).1 rfl⟩

/-- **A cancelled run leaves the command running**: the command closes its output and goes on, and
the run is cancelled. -/
theorem cancelled_leaves_running :
    ¬ ∀ events s, Run WaitStep {} events s → s.point.isEnded = true → s.running = false := by
  intro hexited
  have hrun : Run WaitStep {} [.closePipe, .readEof, .cancel, .resume]
      { pipeClosed := true, outputTask := .done, point := .ended .cancelled } :=
    .cons rfl <| .cons rfl <| .cons rfl <| .single rfl
  cases hexited _ _ hrun rfl

end Bash

end Tile
