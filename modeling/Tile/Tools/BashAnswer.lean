import Tile.Tools.Bash
import Tile.Tools.WaitForProcess

/-!
# Tools/BashAnswer — what the model is told of a command

A command that fails or times out is a tool error, whose message is the output as far as it is
shown, and the status below it.  **However the process, its pipe, the timer and the coroutine
interleave, and however the pipe cuts the output, the model is shown the same of it**: all of what
was read, or its tail and a notice (`bash_answer`).
-/

namespace Tile

namespace Bash

/-- A timeout failure status; `seconds` is how `format` writes the timeout. -/
def timeoutStatus (seconds : String) : String := s!"Command timed out after {seconds} seconds"

def exitStatus (exitCode : Int) : String := s!"Command exited with code {exitCode}"

/-- Format captured shell output for error messages. -/
def buildErrorOutputText (snapshot : OutputSnapshot) : Text :=
  if snapshot.content = [] ∧ snapshot.truncation.truncated = false then []
  else if snapshot.truncation.truncated = false then snapshot.content
  else appendStatus snapshot.content (truncationNotice snapshot.truncation)

/-- Raise when shell execution timed out or exited unsuccessfully. -/
def raiseForExecutionFailure (snapshot : OutputSnapshot) (exitCode : Option Int) (timedOut : Bool)
    (seconds : String) : Except Text Unit :=
  if timedOut then
    .error (appendStatus (buildErrorOutputText snapshot) (timeoutStatus seconds))
  else match exitCode with
    | none => .ok ()
    | some exitCode =>
      if exitCode = 0 then .ok ()
      else .error (appendStatus (buildErrorOutputText snapshot) (exitStatus exitCode))

/-- What the tool returns, or the message of its error, once the process was waited for. -/
def answer (snapshot : OutputSnapshot) (exitCode : Option Int) (timedOut : Bool)
    (seconds : String) : Except Text TextResult := do
  raiseForExecutionFailure snapshot exitCode timedOut seconds
  return buildResult snapshot

/-! ## What was read -/

def WaitEvent.chunk : WaitEvent → Bytes
  | .readChunk chunk => chunk
  | _ => []

/-- The bytes that were read from the pipe. -/
def bytesRead (events : List WaitEvent) : Bytes := events.flatMap WaitEvent.chunk

theorem bytesRead_snoc (events : List WaitEvent) (event : WaitEvent) :
    bytesRead (events ++ [event]) = bytesRead events ++ event.chunk := by
  simp [bytesRead]

/-- What the state remembers of the events. -/
structure Remembers (events : List WaitEvent) (s : WaitState) : Prop where
  tracks : s.output.Tracks OUTPUT_LINE_LIMIT OUTPUT_BYTE_LIMIT (bytesRead events)
  timedOut : s.timedOut = true ↔ .timeout ∈ events
  /-- The coroutine waits for the rest of the output once the process is reaped. -/
  draining : s.point = .outputTask false → s.waitTask = .done
  returned : ∀ snapshot timedOut, s.point = .ended (.returned snapshot timedOut) →
    s.waitTask = .done ∧ s.outputTask = .done ∧ snapshot = s.output.finish.1 ∧
      timedOut = s.timedOut

section Steps

variable {events : List WaitEvent} {s s' : WaitState} {event : WaitEvent}

theorem remembers_start : Remembers [] {} where
  tracks := OutputAccumulator.tracks_new _ _
  timedOut := by simp
  draining h := by cases h
  returned _ _ h := by cases h

/-- Other events neither read nor time out. -/
theorem Remembers.other (h : Remembers events s) (hchunk : event.chunk = [])
    (htimeout : event ≠ .timeout) (houtput : s'.output = s.output)
    (htimedOut : s'.timedOut = s.timedOut)
    (hdraining : s'.point = .outputTask false → s'.waitTask = .done)
    (hreturned : ∀ snapshot timedOut, s'.point = .ended (.returned snapshot timedOut) →
      s'.waitTask = .done ∧ s'.outputTask = .done ∧ snapshot = s'.output.finish.1 ∧
        timedOut = s'.timedOut) : Remembers (events ++ [event]) s' where
  tracks := by
    rw [bytesRead_snoc, hchunk, List.append_nil, houtput]
    exact h.tracks
  timedOut := by
    rw [htimedOut, h.timedOut]
    simp [htimeout.symm]
  draining := hdraining
  returned := hreturned

theorem WaitStep.remembers (h : WaitStep s event s') (hs : Remembers events s) :
    Remembers (events ++ [event]) s' := by
  rw [WaitStep] at h
  cases event with
  | exit =>
    obtain ⟨-, rfl⟩ := of_guard h
    exact hs.other rfl (by simp) rfl rfl hs.draining hs.returned
  | closePipe =>
    obtain rfl := Option.some.inj h
    exact hs.other rfl (by simp) rfl rfl hs.draining hs.returned
  | readChunk chunk =>
    obtain ⟨hpending, h⟩ := Option.ite_none_right_eq_some.mp h
    obtain ⟨output, houtput, rfl⟩ := Option.map_eq_some_iff.mp h
    obtain ⟨acc, haccumulate, htracks⟩ := hs.tracks.accumulate chunk
    obtain rfl : acc = output := by
      rw [haccumulate] at houtput
      exact Option.some.inj houtput
    refine ⟨?_, ?_, hs.draining, fun snapshot timedOut hreturned => ?_⟩
    · rw [bytesRead_snoc]
      exact htracks
    · simpa using hs.timedOut
    · cases hpending.symm.trans (hs.returned snapshot timedOut hreturned).2.1
  | readEof =>
    obtain ⟨⟨hpending, -⟩, rfl⟩ := of_guard h
    refine hs.other rfl (by simp) rfl rfl hs.draining fun snapshot timedOut hreturned => ?_
    cases hpending.symm.trans (hs.returned snapshot timedOut hreturned).2.1
  | reap =>
    obtain ⟨⟨hpending, -⟩, rfl⟩ := of_guard h
    refine hs.other rfl (by simp) rfl rfl (fun _ => rfl) fun snapshot timedOut hreturned => ?_
    cases hpending.symm.trans (hs.returned snapshot timedOut hreturned).1
  | timeout =>
    obtain ⟨-, rfl⟩ := of_guard h
    refine ⟨?_, by simp, fun h => (by cases h), fun _ _ h => (by cases h)⟩
    rw [bytesRead_snoc]
    exact (List.append_nil (bytesRead events)).symm ▸ hs.tracks
  | graceOver =>
    obtain ⟨-, rfl⟩ := of_guard h
    exact hs.other rfl (by simp) rfl rfl (fun h => (by cases h)) fun _ _ h => (by cases h)
  | resume =>
    rcases resume_cases h with ⟨hdone, -, rfl⟩ | ⟨cancelled, outcome, hpoint, hdone, -⟩
    · exact hs.other rfl (by simp) rfl rfl (fun _ => hdone) fun _ _ h => (by cases h)
    · rw [waitStep, WaitState.resume, hpoint] at h
      obtain ⟨-, rfl⟩ := of_guard h
      refine hs.other rfl (by simp) rfl rfl (fun h => (by cases h)) fun snapshot timedOut h => ?_
      cases cancelled with
      | true => cases h
      | false =>
        cases h
        exact ⟨hs.draining hpoint, hdone, rfl, rfl⟩
  | cancel =>
    rcases cancel_cases h with ⟨task, -, -, rfl⟩ | ⟨cancelled, -, rfl⟩
    · exact hs.other rfl (by simp) rfl rfl (fun h => (by cases h)) fun _ _ h => (by cases h)
    · exact hs.other rfl (by simp) rfl rfl (fun h => (by cases h)) fun _ _ h => (by cases h)

theorem remembers_of_run (h : Run WaitStep {} events s) : Remembers events s :=
  h.snocInduction remembers_start fun _ hstep hs => hstep.remembers hs

end Steps

/-! ## What the model is shown -/

/-- The output as it is shown: all of it if it fits the limits, else its tail and a notice. -/
def Shows (output shown : Text) : Prop :=
  if Fits OUTPUT_LINE_LIMIT OUTPUT_BYTE_LIMIT output.lines then shown = output
  else ∃ notice, shown
    = appendStatus (truncateTail output OUTPUT_LINE_LIMIT OUTPUT_BYTE_LIMIT).content notice

section Answers

variable {snapshot : OutputSnapshot} {output : Text}

theorem untruncated_iff
    (h : snapshot.Agrees output (truncateTail output OUTPUT_LINE_LIMIT OUTPUT_BYTE_LIMIT)) :
    snapshot.truncation.truncated = false ↔
      Fits OUTPUT_LINE_LIMIT OUTPUT_BYTE_LIMIT output.lines := by
  rw [h.truncated]
  exact truncateText_truncated_iff

theorem content_of_untruncated
    (h : snapshot.Agrees output (truncateTail output OUTPUT_LINE_LIMIT OUTPUT_BYTE_LIMIT))
    (huntruncated : snapshot.truncation.truncated = false) : snapshot.content = output := by
  rw [h.content, truncateTail, truncateText_of_fits ((untruncated_iff h).mp huntruncated)]
  rfl

theorem buildErrorOutputText_shows
    (h : snapshot.Agrees output (truncateTail output OUTPUT_LINE_LIMIT OUTPUT_BYTE_LIMIT)) :
    Shows output (buildErrorOutputText snapshot) := by
  rw [Shows, buildErrorOutputText]
  cases htruncated : snapshot.truncation.truncated with
  | false =>
    rw [if_pos ((untruncated_iff h).mp htruncated), content_of_untruncated h htruncated]
    split
    next hempty => exact hempty.1.symm
    next => rfl
  | true =>
    have hfits := (untruncated_iff h).not.mp (by simp [htruncated])
    rw [if_neg hfits, h.content]
    exact ⟨truncationNotice snapshot.truncation, by simp⟩

/-- A result shows what an error would show, but says so if there is no output. -/
theorem buildResult_eq
    (h : snapshot.Agrees output (truncateTail output OUTPUT_LINE_LIMIT OUTPUT_BYTE_LIMIT)) :
    buildResult snapshot = {
      text := if output = [] then "(no output)".toList else buildErrorOutputText snapshot
      details := if snapshot.truncation.truncated then
        some (.fromTruncation snapshot.truncation) else none } := by
  rw [buildResult, buildErrorOutputText]
  cases htruncated : snapshot.truncation.truncated with
  | false =>
    rw [content_of_untruncated h htruncated]
    by_cases hempty : output = []
    · simp [hempty]
    · simp [hempty]
  | true =>
    have hne : output ≠ [] := by
      rintro rfl
      have hfits := (untruncated_iff h).not.mp (by simp [htruncated])
      exact hfits (by decide)
    simp [hne]

end Answers

/-- **What the model is told of a command**: in each run in which the process was waited for, it has
exited, and the answer shows what was read of its output, with the status below it if the command
failed or timed out. -/
theorem bash_answer {events : List WaitEvent} {s : WaitState} {snapshot : OutputSnapshot}
    {timedOut : Bool} (h : Run WaitStep {} events s)
    (hended : s.point = .ended (.returned snapshot timedOut)) (exitCode : Option Int)
    (seconds : String) :
    let output := Utf8.decodeReplacing (bytesRead events)
    s.running = false ∧ (timedOut = true ↔ .timeout ∈ events) ∧
      ∃ shown, Shows output shown ∧
        answer snapshot exitCode timedOut seconds =
          if timedOut then .error (appendStatus shown (timeoutStatus seconds))
          else if exitCode.getD 0 ≠ 0 then
            .error (appendStatus shown (exitStatus (exitCode.getD 0)))
          else .ok {
            text := if output = [] then "(no output)".toList else shown
            details := if Fits OUTPUT_LINE_LIMIT OUTPUT_BYTE_LIMIT output.lines then none
              else some (.fromTruncation snapshot.truncation) } := by
  have hs := remembers_of_run h
  obtain ⟨hreaped, -, rfl, rfl⟩ := hs.returned _ _ hended
  have hinv : WaitInv s := h.invariant (fun hstep hs => hstep.inv hs) waitInv_start
  obtain ⟨acc, forgotten, kept, hfinish, hholds, hmaxLines, hmaxBytes, htext⟩ := hs.tracks.finish
  have hagrees := hholds.snapshot_agrees (by rw [hmaxLines]; decide) (by rw [hmaxBytes]; decide)
  rw [← hfinish, htext, hmaxLines, hmaxBytes] at hagrees
  refine ⟨hinv.reaped hreaped, hs.timedOut, _, buildErrorOutputText_shows hagrees, ?_⟩
  have hresult : buildResult s.output.finish.1 = {
      text := if Utf8.decodeReplacing (bytesRead events) = [] then "(no output)".toList
        else buildErrorOutputText s.output.finish.1
      details := if Fits OUTPUT_LINE_LIMIT OUTPUT_BYTE_LIMIT
          (Utf8.decodeReplacing (bytesRead events)).lines then none
        else some (.fromTruncation s.output.finish.1.truncation) } := by
    rw [buildResult_eq hagrees]
    simp only [← untruncated_iff hagrees]
    cases s.output.finish.1.truncation.truncated <;> rfl
  cases htimedOut : s.timedOut with
  | true => rfl
  | false =>
    cases exitCode with
    | none => exact congrArg Except.ok hresult
    | some exitCode =>
      by_cases hzero : exitCode = 0
      · subst hzero
        exact congrArg Except.ok hresult
      · simp [answer, raiseForExecutionFailure, hzero, bind, Except.bind]

/-- What was read of a command that writes a line. -/
def readLine : OutputAccumulator :=
  (({} : OutputAccumulator).accumulate [111, 107, 10]).toOption.getD {}

/-- It is shown above the status when the command exits at SIGTERM. -/
theorem bash_answer_timedOut : ∃ snapshot,
    Run WaitStep {} [.readChunk [111, 107, 10], .timeout, .exit, .closePipe, .readEof, .reap,
        .resume, .resume]
      { running := false, pipeClosed := true, outputTask := .done, waitTask := .done,
        timedOut := true, output := readLine, point := .ended (.returned snapshot true) } ∧
      answer snapshot (some (-15)) true "5"
        = .error "ok\n\n\nCommand timed out after 5 seconds".toList := by
  have hread : WaitStep {} (.readChunk [111, 107, 10]) { output := readLine } := rfl
  have hrest : Run WaitStep { output := readLine }
      [.timeout, .exit, .closePipe, .readEof, .reap, .resume, .resume]
      { running := false, pipeClosed := true, outputTask := .done, waitTask := .done,
        timedOut := true, output := readLine,
        point := .ended (.returned readLine.finish.1 true) } :=
    .cons rfl <| .cons rfl <| .cons rfl <| .cons rfl <| .cons rfl <| .cons rfl <| .single rfl
  refine ⟨_, .cons hread hrest, ?_⟩
  obtain ⟨-, -, shown, hshown, hanswer⟩ := bash_answer (.cons hread hrest) rfl (some (-15)) "5"
  obtain rfl : shown = "ok\n".toList := by
    rw [Shows, if_pos (by decide +kernel)] at hshown
    rw [hshown]
    decide +kernel
  rw [hanswer]
  decide +kernel

end Bash

end Tile
