import Tile.Tools.Support.OutputAccumulator

/-!
# Tools/Bash — the output of a shell command

Output is accumulated as it comes, in whatever chunks the pipe delivers, and presented with a notice
of the lines that are shown when it is truncated.
-/

namespace Tile

namespace Bash

/-- Append a command status line after captured output. -/
def appendStatus (output : Text) (status : String) : Text :=
  if output = [] then status.toList else output ++ s!"\n\n{status}".toList

/-- The notice that names the lines that are shown, and the byte limit if it is the reason. -/
def linesNotice (startLine : Int) (endLine totalLines : Nat) : Option String → String
  | none => s!"[Showing lines {startLine}-{endLine} of {totalLines}]"
  | some limit => s!"[Showing lines {startLine}-{endLine} of {totalLines} ({limit} limit)]"

/-- A compact bash output truncation notice. -/
def truncationNotice (truncation : Truncation) : String :=
  if truncation.edgeLineExceedsLimit then
    s!"[Output omitted: last line exceeds {OUTPUT_BYTE_LIMIT_LABEL} limit]"
  else
    let startLine : Int := truncation.totalLines - truncation.outputLines + 1
    let endLine := truncation.totalLines
    linesNotice startLine endLine truncation.totalLines
      (if truncation.truncatedBy = some .lines then none
        else some (formatSize truncation.maxBytes))

/-- Build shell output for successful command execution. -/
def buildResult (snapshot : OutputSnapshot) : TextResult :=
  if snapshot.content = [] ∧ snapshot.truncation.truncated = false then
    { text := "(no output)".toList }
  else if snapshot.truncation.truncated = false then { text := snapshot.content }
  else
    { text := appendStatus snapshot.content (truncationNotice snapshot.truncation)
      details := some (.fromTruncation snapshot.truncation) }

theorem truncationNotice_eq {truncation : Truncation}
    (hedge : truncation.edgeLineExceedsLimit = false)
    (hle : truncation.outputLines ≤ truncation.totalLines) :
    ∃ limit, truncationNotice truncation = linesNotice
      ((truncation.totalLines - truncation.outputLines + 1 : Nat) : Int) truncation.totalLines
      truncation.totalLines limit := by
  have hstart : ((truncation.totalLines - truncation.outputLines + 1 : Nat) : Int)
      = truncation.totalLines - truncation.outputLines + 1 := by omega
  rw [truncationNotice, hedge, if_neg Bool.false_ne_true, hstart]
  exact ⟨_, rfl⟩

end Bash

/-- A snapshot says of a text what this truncation of it says, and what it shows is what it says. -/
structure OutputSnapshot.Presents (snapshot : OutputSnapshot) (text : Text)
    (truncation : Truncation) : Prop extends snapshot.Agrees text truncation where
  /-- What is shown are the last lines. -/
  shown : snapshot.truncation.truncated = true → snapshot.content =
    Text.joinLines (text.lines.drop (text.lines.length - snapshot.truncation.outputLines))
  /-- The notice of a truncated output names the lines that are shown. -/
  named : snapshot.truncation.truncated = true → snapshot.truncation.edgeLineExceedsLimit = false →
    ∃ (first last : Nat) (limit : Option String),
      0 < first ∧ first ≤ last ∧ last = text.lines.length ∧
      snapshot.content = Text.joinLines ((text.lines.take last).drop (first - 1)) ∧
      (Bash.buildResult snapshot).text = Bash.appendStatus snapshot.content
        (Bash.linesNotice first last text.lines.length limit)

/-- **The bounded accumulator agrees with truncating the whole output**, however that is cut into
chunks. -/
theorem finish_presents {maxLines maxBytes : Nat} (hlines : 1 ≤ maxLines) (hbytes : 4 ≤ maxBytes)
    (chunks : List Bytes) :
    ∃ acc, ({ maxLines, maxBytes } : OutputAccumulator).accumulateAll chunks = .ok acc ∧
      acc.finish.1.Presents (Utf8.decodeReplacing chunks.flatten)
        (truncateTail (Utf8.decodeReplacing chunks.flatten) maxLines maxBytes) := by
  obtain ⟨acc, haccumulate, htracks⟩ :=
    (OutputAccumulator.tracks_new maxLines maxBytes).accumulateAll chunks
  obtain ⟨acc', forgotten, kept, hfinish, hholds, rfl, rfl, htext⟩ := htracks.finish
  refine ⟨acc, haccumulate, ?_⟩
  rw [List.nil_append] at htext
  have hagrees := hholds.snapshot_agrees hlines hbytes
  rw [htext] at hagrees
  rw [hfinish]
  generalize Utf8.decodeReplacing chunks.flatten = text at *
  obtain ⟨hshown, hle, hpos⟩ := truncateTail_content hlines acc'.maxBytes text
  rw [← hagrees.outputLines] at hshown hle hpos
  have hcontent := hagrees.content.trans hshown
  refine ⟨hagrees, fun _ => hcontent, fun htruncated hedge => ?_⟩
  have hne : text ≠ [] := by
    rintro rfl
    have huntruncated := hagrees.truncated
    rw [htruncated, truncateTail, truncateText_nil hlines] at huntruncated
    cases huntruncated
  have htotalLines : acc'.snapshot.truncation.totalLines = text.lines.length := by
    rw [hagrees.totalLines, if_neg hne, truncateTail, truncateText_totalLines]
  have hpos := hpos (hagrees.edgeLineExceedsLimit ▸ hedge)
  obtain ⟨limit, hnotice⟩ := Bash.truncationNotice_eq hedge (htotalLines ▸ hle)
  rw [htotalLines] at hnotice
  refine ⟨text.lines.length - acc'.snapshot.truncation.outputLines + 1, text.lines.length, limit,
    Nat.succ_pos _, ?_, rfl, ?_, ?_⟩
  · exact Nat.succ_le_of_lt (Nat.sub_lt (hpos.trans_le hle) hpos)
  · rw [List.take_length, Nat.add_sub_cancel]
    exact hcontent
  · rw [Bash.buildResult, if_neg (by simp [htruncated]), if_neg (by simp [htruncated])]
    exact congrArg (Bash.appendStatus acc'.snapshot.content) hnotice

/-- Four lines, cut inside of a character; the rolling buffer loses a part of the first one. -/
theorem finish_presents_cutCharacter :
    ∃ acc, ({ maxLines := 3, maxBytes := 4 } : OutputAccumulator).accumulateAll
        [[97, 97, 97, 97, 10, 98, 10, 0xC3], [0xA9, 10, 99]] = .ok acc ∧
      acc.finish.1.content = "é\nc".toList ∧
      acc.finish.1.Presents "aaaa\nb\né\nc".toList
        (truncateTail "aaaa\nb\né\nc".toList 3 4) := by
  obtain ⟨acc, hacc, hpresents⟩ := @finish_presents 3 4 (by decide) (by decide)
    [[97, 97, 97, 97, 10, 98, 10, 0xC3], [0xA9, 10, 99]]
  have htext : Utf8.decodeReplacing [[97, 97, 97, 97, 10, 98, 10, 0xC3], [0xA9, 10, 99]].flatten
      = "aaaa\nb\né\nc".toList := by decide +kernel
  rw [htext] at hpresents
  exact ⟨acc, hacc, hpresents.content.trans (by decide +kernel), hpresents⟩

end Tile
