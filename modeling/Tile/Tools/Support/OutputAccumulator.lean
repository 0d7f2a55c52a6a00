import Tile.Text.Replacing
import Tile.ToolExecutor
import Tile.Tools.Support.Truncation

/-!
# Tools/Support/OutputAccumulator — a bounded tail of unbounded output

The accumulator keeps the last bytes of what it decoded, cut at a character, and whether they start
with a line.  It has seen some text and forgot a first part of it (`OutputAccumulator.Holds`); the
rest is more than the limits let through, so **its snapshot is the truncation of everything**
(`Holds.snapshot_agrees`).
-/

namespace Tile

/-- Bounded output content and truncation metadata. -/
structure OutputSnapshot where
  content : Text
  truncation : Truncation
  deriving Repr, DecidableEq

/-- `pending` is the state of the decoder. -/
structure OutputAccumulator where
  maxLines : Nat := OUTPUT_LINE_LIMIT
  maxBytes : Nat := OUTPUT_BYTE_LIMIT
  pending : Bytes := []
  tailBuffer : Bytes := []
  tailStartsAtLineBoundary : Bool := true
  totalBytes : Nat := 0
  totalLines : Nat := 0
  finished : Bool := false

/-- A valid UTF-8 character boundary at or after `start`. -/
def utf8BoundaryAtOrAfter (content : Bytes) (start : Nat) : Nat :=
  start + ((content.drop start).takeWhile fun b => b.val &&& 0xC0 = 0x80).length

/-- The byte offset that keeps at most `maxBytes` from the content tail. -/
def trimStart (content : Bytes) (maxBytes : Nat) : Nat :=
  if content.length ≤ maxBytes then 0
  else utf8BoundaryAtOrAfter content (content.length - maxBytes)

/-- Whether a retained suffix begins at a complete line boundary. -/
def startsAtLineBoundary (content : Bytes) (start : Nat) (previous : Bool) : Bool :=
  if start = 0 then previous else content[start - 1]?.any (·.val = 0x0A)

namespace OutputAccumulator

variable (acc : OutputAccumulator)

def maxRollingBytes : Nat := acc.maxBytes * 2

/-- Append decoded text and keep the rolling buffer bounded. -/
def appendDecodedText (text : Text) : OutputAccumulator :=
  if text = [] then acc
  else
    let textBytes := text.encode
    let tailBuffer := acc.tailBuffer ++ textBytes
    let start := trimStart tailBuffer acc.maxRollingBytes
    { acc with
      totalBytes := acc.totalBytes + textBytes.length
      totalLines := (if acc.totalLines = 0 then 1 else acc.totalLines) + text.count '\n'
      tailBuffer := tailBuffer.drop start
      tailStartsAtLineBoundary :=
        startsAtLineBoundary tailBuffer start acc.tailStartsAtLineBoundary }

/-- Decode and append one raw output chunk. -/
def accumulate (chunk : Bytes) : Except PyException OutputAccumulator :=
  if acc.finished then
    .error { typeName := "RuntimeError", message := "Cannot accumulate output after finish" }
  else
    let (text, pending) := Utf8.decodeChunk acc.pending chunk
    .ok { acc.appendDecodedText text with pending }

/-- Tail text beginning at a line boundary when possible. -/
def snapshotText : Text :=
  let tailText := Utf8.decodeReplacing acc.tailBuffer
  if acc.tailStartsAtLineBoundary then tailText
  else match tailText.findIdx? (· = '\n') with
    | none => tailText
    | some firstNewline => tailText.drop (firstNewline + 1)

/-- The effective truncation boundary for the full stream. -/
def truncatedBy (truncation : Truncation) : Option TruncationReason :=
  match truncation.truncatedBy with
  | some reason => some reason
  | none =>
    if acc.totalLines > acc.maxLines then some .lines
    else if acc.totalBytes > acc.maxBytes then some .bytes
    else none

/-- Overlay global output totals onto a tail truncation result. -/
def withTotalMetadata (truncation : Truncation) : Truncation :=
  { truncation with
    truncated := (acc.truncatedBy truncation).isSome
    truncatedBy := acc.truncatedBy truncation
    totalLines := acc.totalLines
    totalBytes := acc.totalBytes }

/-- The current bounded output snapshot. -/
def snapshot : OutputSnapshot :=
  let truncation := truncateTail acc.snapshotText acc.maxLines acc.maxBytes
  { content := truncation.content, truncation := acc.withTotalMetadata truncation }

/-- Flush pending decoder state and return the final output snapshot. -/
def finish : OutputSnapshot × OutputAccumulator :=
  let acc := if acc.finished then acc
    else { acc.appendDecodedText (Utf8.flush acc.pending) with pending := [], finished := true }
  (acc.snapshot, acc)

/-- Accumulate some chunks, one after the other. -/
def accumulateAll (chunks : List Bytes) : Except PyException OutputAccumulator :=
  chunks.foldlM accumulate acc

end OutputAccumulator

/-! ## Trimming -/

section Trimming

theorem and_eq_iff_isTail (b : Byte) : b.val &&& 0xC0 = 0x80 ↔ Utf8.IsTail b := by
  revert b
  decide +kernel

theorem utf8BoundaryAtOrAfter_append (bytes rest : Bytes) (start : Nat) :
    utf8BoundaryAtOrAfter (bytes ++ rest) (bytes.length + start)
      = bytes.length + utf8BoundaryAtOrAfter rest start := by
  have hdrop : (bytes ++ rest).drop (bytes.length + start) = rest.drop start := by
    rw [← List.drop_drop, List.drop_left]
  rw [utf8BoundaryAtOrAfter, utf8BoundaryAtOrAfter, hdrop, Nat.add_assoc]

/-- A text starts at a boundary. -/
theorem utf8BoundaryAtOrAfter_encode (text : Text) : utf8BoundaryAtOrAfter text.encode 0 = 0 := by
  cases text with
  | nil => rfl
  | cons c text =>
    obtain ⟨lead, tail, hchar, hlead, -⟩ := Text.exists_lead c
    simp [utf8BoundaryAtOrAfter, Text.encode_cons, hchar, and_eq_iff_isTail, hlead]

/-- **A boundary cuts between two characters**, not far after where it was asked for. -/
theorem exists_boundary (text : Text) (start : Nat) (h : start ≤ text.size) :
    ∃ before after, text = before ++ after ∧
      utf8BoundaryAtOrAfter text.encode start = before.size ∧
      start ≤ before.size ∧ before.size ≤ start + 3 := by
  induction text generalizing start with
  | nil =>
    obtain rfl := Nat.le_zero.mp h
    exact ⟨[], [], rfl, rfl, Nat.le_refl _, Nat.zero_le _⟩
  | cons c text ih =>
    obtain ⟨lead, tail, hchar, hlead, htail, hlength⟩ := Text.exists_lead c
    cases start with
    | zero => exact ⟨[], c :: text, rfl, utf8BoundaryAtOrAfter_encode _, Nat.le_refl _, by simp⟩
    | succ start =>
      have hsize : Text.size [c] = tail.length + 1 := by simp [Text.size_cons, hchar]
      by_cases hstart : start < tail.length
      · refine ⟨[c], text, rfl, ?_, by omega, by omega⟩
        have htails : ∀ b ∈ tail.drop start, decide (b.val &&& 0xC0 = 0x80) = true :=
          fun b hb => decide_eq_true ((and_eq_iff_isTail b).mpr (htail b (List.mem_of_mem_drop hb)))
        have hrest : (Text.encode text).takeWhile (fun b => b.val &&& 0xC0 = 0x80) = [] := by
          simpa [utf8BoundaryAtOrAfter] using utf8BoundaryAtOrAfter_encode text
        have hdrop : (lead :: tail ++ Text.encode text).drop (start + 1)
            = tail.drop start ++ Text.encode text := by
          rw [List.cons_append, List.drop_succ_cons, List.drop_append_of_le_length hstart.le]
        rw [utf8BoundaryAtOrAfter, Text.encode_cons, hchar, hdrop,
          List.takeWhile_append_of_pos htails, hrest, List.append_nil, List.length_drop]
        omega
      · obtain ⟨before, after, rfl, hboundary, hle, hle'⟩ := ih (start - tail.length)
          (by rw [Text.size_cons, hchar, List.length_cons] at h; omega)
        refine ⟨c :: before, after, rfl, ?_, ?_, ?_⟩
        · have hsplit : start + 1 = (lead :: tail).length + (start - tail.length) := by
            rw [List.length_cons]
            omega
          rw [Text.encode_cons, hchar, hsplit, utf8BoundaryAtOrAfter_append, hboundary,
            Text.size_cons, hchar]
        · rw [Text.size_cons, hchar, List.length_cons]
          omega
        · rw [Text.size_cons, hchar, List.length_cons]
          omega

theorem exists_trimStart (text : Text) (limit : Nat) :
    ∃ before after, text = before ++ after ∧ trimStart text.encode limit = before.size ∧
      (before = [] ∨ limit ≤ after.size + 3) := by
  rw [trimStart]
  split
  next => exact ⟨[], text, rfl, rfl, .inl rfl⟩
  next hlimit =>
    have hsize : Text.size text = text.encode.length := rfl
    obtain ⟨before, after, rfl, hboundary, -, hle⟩ :=
      exists_boundary text (text.encode.length - limit) (by omega)
    refine ⟨before, after, rfl, hboundary, .inr ?_⟩
    rw [Text.size_append] at hsize
    omega

theorem getLast?_encode (text : Text) :
    text.encode.getLast? = some 10 ↔ text.getLast? = some '\n' := by
  rcases text.eq_nil_or_concat with rfl | ⟨before, c, rfl⟩
  · simp
  · have hchar : Text.encodeChar c ≠ [] := by
      obtain ⟨lead, tail, hchar, -⟩ := Text.exists_lead c
      simp [hchar]
    have hlast : Text.encode [c] = Text.encodeChar c := by simp [Text.encode]
    rw [List.concat_eq_append, Text.encode_append, hlast, List.getLast?_append_of_ne_nil _ hchar,
      Text.getLast?_encodeChar]
    simp

theorem startsAtLineBoundary_iff {before after : Text} (h : before ≠ []) (previous : Bool) :
    startsAtLineBoundary (before ++ after).encode before.size previous = true ↔
      before.getLast? = some '\n' := by
  have hsize : before.size ≠ 0 := by
    obtain ⟨c, rest, rfl⟩ := List.exists_cons_of_ne_nil h
    obtain ⟨lead, tail, hchar, -⟩ := Text.exists_lead c
    simp [Text.size_cons, hchar]
  rw [startsAtLineBoundary, if_neg hsize, Option.any_eq_true, Text.encode_append,
    List.getElem?_append_left (by rw [Text.size] at *; omega), ← getLast?_encode,
    List.getLast?_eq_getElem?, Text.size]
  have hbyte : ∀ b : Byte, decide (b.val = 0x0A) = true ↔ b = 10 := fun b =>
    decide_eq_true_iff.trans (Fin.ext_iff (b := 10)).symm
  simp only [hbyte, exists_eq_right]

end Trimming

/-! ## What an accumulator holds -/

namespace Text

theorem length_lines (text : Text) : text.lines.length = text.count '\n' + 1 := by
  induction text with
  | nil => rfl
  | cons c text ih =>
    rw [lines, List.splitOn_cons_eq_if_modifyHead, List.count_cons]
    rw [lines] at ih
    split
    · rw [List.length_cons, ih]
    · rw [List.length_modifyHead, ih]

end Text

namespace OutputAccumulator

/-- The accumulator has seen `forgotten ++ kept`, and holds `kept`. -/
structure Holds (acc : OutputAccumulator) (forgotten kept : Text) : Prop where
  tailBuffer : acc.tailBuffer = kept.encode
  boundary : acc.tailStartsAtLineBoundary = true ↔
    forgotten = [] ∨ forgotten.getLast? = some '\n'
  /-- What is forgotten would not be shown. -/
  enough : forgotten = [] ∨ acc.maxBytes * 2 ≤ kept.size + 3
  totalBytes : acc.totalBytes = (forgotten ++ kept).size
  totalLines : acc.totalLines =
    if forgotten ++ kept = [] then 0 else (forgotten ++ kept).lines.length

variable {acc : OutputAccumulator} {forgotten kept : Text}

theorem holds_new (maxLines maxBytes : Nat) :
    ({ maxLines, maxBytes } : OutputAccumulator).Holds [] [] :=
  ⟨rfl, by simp, .inl rfl, rfl, rfl⟩

/-- **Appending text keeps the invariant.** -/
theorem Holds.append (h : acc.Holds forgotten kept) (text : Text) :
    ∃ forgotten' kept', (acc.appendDecodedText text).Holds forgotten' kept' ∧
      forgotten' ++ kept' = forgotten ++ kept ++ text := by
  rw [appendDecodedText]
  split
  next hnil => exact ⟨forgotten, kept, h, by simp [hnil]⟩
  next hne =>
    have hbuffer : acc.tailBuffer ++ Text.encode text = (kept ++ text).encode := by
      rw [h.tailBuffer, Text.encode_append]
    obtain ⟨before, after, hsplit, hstart, henough⟩ :=
      exists_trimStart (kept ++ text) acc.maxRollingBytes
    refine ⟨forgotten ++ before, after, ?_, by rw [List.append_assoc, ← hsplit]; simp⟩
    simp only [hbuffer, hstart]
    have htext : forgotten ++ before ++ after = forgotten ++ kept ++ text := by
      rw [List.append_assoc, ← hsplit, List.append_assoc]
    constructor
    case tailBuffer =>
      rw [hsplit, Text.encode_append, Text.size, List.drop_left]
    case boundary =>
      by_cases hbefore : before = []
      · subst hbefore
        simpa [startsAtLineBoundary] using h.boundary
      · rw [hsplit, startsAtLineBoundary_iff hbefore, List.getLast?_append_of_ne_nil _ hbefore]
        simp [hbefore]
    case enough =>
      rcases henough with rfl | henough
      · obtain rfl : kept ++ text = after := hsplit
        refine h.enough.imp (fun hnil => by simp [hnil]) fun hlarge => ?_
        rw [Text.size_append]
        exact hlarge.trans (by omega)
      · exact .inr henough
    case totalBytes =>
      rw [htext, Text.size_append, ← h.totalBytes]
      rfl
    case totalLines =>
      have hlines := h.totalLines
      have hseen : forgotten ++ kept ++ text ≠ [] := by simp [hne]
      change (if acc.totalLines = 0 then 1 else acc.totalLines) + text.count '\n' = _
      rw [htext, if_neg hseen, Text.length_lines, List.count_append]
      by_cases hnil : forgotten ++ kept = []
      · rw [if_pos hnil] at hlines
        rw [if_pos hlines, hnil, List.count_nil]
        omega
      · rw [if_neg hnil, Text.length_lines] at hlines
        rw [if_neg (by omega)]
        omega

/-- The accumulator was given these bytes, and is not finished. -/
structure Tracks (acc : OutputAccumulator) (maxLines maxBytes : Nat) (data : Bytes) : Prop where
  holds : ∃ forgotten kept, acc.Holds forgotten kept ∧
    forgotten ++ kept = (Utf8.decodeChunk [] data).1
  pending : acc.pending = (Utf8.decodeChunk [] data).2
  finished : acc.finished = false
  maxLines : acc.maxLines = maxLines
  maxBytes : acc.maxBytes = maxBytes

section Frame

variable (acc : OutputAccumulator) (text : Text)

@[simp] theorem appendDecodedText_maxLines :
    (acc.appendDecodedText text).maxLines = acc.maxLines := by
  rw [appendDecodedText]
  split <;> rfl

@[simp] theorem appendDecodedText_maxBytes :
    (acc.appendDecodedText text).maxBytes = acc.maxBytes := by
  rw [appendDecodedText]
  split <;> rfl

@[simp] theorem appendDecodedText_finished :
    (acc.appendDecodedText text).finished = acc.finished := by
  rw [appendDecodedText]
  split <;> rfl

end Frame

variable {maxLines maxBytes : Nat} {data : Bytes}

theorem tracks_new (maxLines maxBytes : Nat) :
    ({ maxLines, maxBytes } : OutputAccumulator).Tracks maxLines maxBytes [] :=
  ⟨⟨[], [], holds_new maxLines maxBytes, rfl⟩, rfl, rfl, rfl, rfl⟩

/-- What one chunk preserves is preserved by all of them. -/
theorem accumulateAll_induction {motive : OutputAccumulator → Bytes → Prop}
    (hstep : ∀ acc data chunk, motive acc data →
      ∃ acc', acc.accumulate chunk = .ok acc' ∧ motive acc' (data ++ chunk))
    (h : motive acc data) (chunks : List Bytes) :
    ∃ acc', acc.accumulateAll chunks = .ok acc' ∧ motive acc' (data ++ chunks.flatten) := by
  induction chunks generalizing acc data with
  | nil => exact ⟨acc, rfl, by simpa using h⟩
  | cons chunk chunks ih =>
    obtain ⟨acc', haccumulate, hacc'⟩ := hstep acc data chunk h
    obtain ⟨acc'', hrest, hacc''⟩ := ih hacc'
    refine ⟨acc'', ?_, by simpa using hacc''⟩
    rw [accumulateAll, List.foldlM_cons, haccumulate]
    exact hrest

theorem Tracks.accumulate (h : acc.Tracks maxLines maxBytes data) (chunk : Bytes) :
    ∃ acc', acc.accumulate chunk = .ok acc' ∧ acc'.Tracks maxLines maxBytes (data ++ chunk) := by
  obtain ⟨forgotten, kept, hholds, htext⟩ := h.holds
  obtain ⟨forgotten', kept', hholds', htext'⟩ :=
    hholds.append (Utf8.decodeChunk acc.pending chunk).1
  refine ⟨_, by rw [OutputAccumulator.accumulate, h.finished, if_neg Bool.false_ne_true], ?_⟩
  constructor
  case holds =>
    refine ⟨forgotten', kept', ⟨hholds'.tailBuffer, hholds'.boundary, hholds'.enough,
      hholds'.totalBytes, hholds'.totalLines⟩, ?_⟩
    rw [htext', htext, h.pending, Utf8.decodeChunk_append]
  case pending => rw [Utf8.decodeChunk_append, h.pending]
  case finished => simp [h.finished]
  case maxLines => simp [h.maxLines]
  case maxBytes => simp [h.maxBytes]

/-- **However the bytes are cut**, the accumulator has tracked all of them. -/
theorem Tracks.accumulateAll (h : acc.Tracks maxLines maxBytes data) (chunks : List Bytes) :
    ∃ acc', acc.accumulateAll chunks = .ok acc' ∧
      acc'.Tracks maxLines maxBytes (data ++ chunks.flatten) :=
  accumulateAll_induction (motive := fun acc data => acc.Tracks maxLines maxBytes data)
    (fun _ _ chunk h => h.accumulate chunk) h chunks

/-- Finishing flushes the decoder: the snapshot is one of the whole text. -/
theorem Tracks.finish (h : acc.Tracks maxLines maxBytes data) :
    ∃ (acc' : OutputAccumulator) (forgotten kept : Text), acc.finish.1 = acc'.snapshot ∧
      acc'.Holds forgotten kept ∧ acc'.maxLines = maxLines ∧ acc'.maxBytes = maxBytes ∧
      forgotten ++ kept = Utf8.decodeReplacing data := by
  obtain ⟨forgotten, kept, hholds, htext⟩ := h.holds
  obtain ⟨forgotten', kept', hholds', htext'⟩ := hholds.append (Utf8.flush acc.pending)
  refine ⟨acc.finish.2, forgotten', kept', rfl, ?_, ?_, ?_, ?_⟩
  · rw [OutputAccumulator.finish, h.finished, if_neg Bool.false_ne_true]
    exact ⟨hholds'.tailBuffer, hholds'.boundary, hholds'.enough, hholds'.totalBytes,
      hholds'.totalLines⟩
  · simp [OutputAccumulator.finish, h.finished, h.maxLines]
  · simp [OutputAccumulator.finish, h.finished, h.maxBytes]
  · rw [htext', htext, h.pending, Utf8.decodeReplacing]

end OutputAccumulator

/-- A snapshot says of a text what this truncation of it says, but for the reason, and for the
number of lines of no output. -/
structure OutputSnapshot.Agrees (snapshot : OutputSnapshot) (text : Text)
    (truncation : Truncation) : Prop where
  content : snapshot.content = truncation.content
  truncated : snapshot.truncation.truncated = truncation.truncated
  outputLines : snapshot.truncation.outputLines = truncation.outputLines
  outputBytes : snapshot.truncation.outputBytes = truncation.outputBytes
  edgeLineExceedsLimit :
    snapshot.truncation.edgeLineExceedsLimit = truncation.edgeLineExceedsLimit
  totalBytes : snapshot.truncation.totalBytes = truncation.totalBytes
  totalLines : snapshot.truncation.totalLines = if text = [] then 0 else truncation.totalLines

/-! ## What a snapshot shows -/

namespace OutputAccumulator

variable {acc : OutputAccumulator} {forgotten kept : Text} {maxLines maxBytes : Nat}

/-- A text and a part of it show the same lines. -/
def SameShown (maxLines maxBytes : Nat) (text part : Text) : Prop :=
  ∃ shown, LongestPrefix (Fits maxLines maxBytes) (iterLines text.lines .tail) shown ∧
    LongestPrefix (Fits maxLines maxBytes) (iterLines part.lines .tail) shown

/-- The last lines of a text, when they and the line before do not fit together. -/
theorem sameShown_of_lines {text part : Text} (before : List Text)
    (hlines : text.lines = before ++ part.lines)
    (hnext : ∀ line ∈ before.getLast?, ¬ Fits maxLines maxBytes (line :: part.lines)) :
    SameShown maxLines maxBytes text part := by
  obtain ⟨shown, hshown, -⟩ := selectOutputLines_longest part.lines .tail maxLines maxBytes
  refine ⟨shown, ?_, hshown⟩
  have hiter : iterLines text.lines .tail = iterLines part.lines .tail ++ before.reverse := by
    simp [iterLines, hlines]
  rw [hiter]
  by_cases hall : shown = iterLines part.lines .tail
  · cases hbefore : before.reverse with
    | nil => simpa [hall] using hall ▸ hshown
    | cons line rest =>
      obtain rfl : before = rest.reverse ++ [line] := by simpa using congrArg List.reverse hbefore
      rw [hall] at hshown ⊢
      refine .of_next _ hshown.holds fun hfits => ?_
      rw [← fits_reverse] at hfits
      simp only [iterLines, List.reverse_append, List.reverse_reverse] at hfits
      exact hnext line (by simp) hfits
  · exact hshown.append hall _

/-- A last line that is too long, and a too long part of it. -/
theorem sameShown_of_edge {text part : Text} {before : List Text} {line : Text}
    (hlines : text.lines = before ++ [line]) (hpart : part.lines = [part])
    (hsize : maxBytes < part.size) (hle : part.size ≤ line.size) :
    SameShown maxLines maxBytes text part := by
  have hfits : Fits maxLines maxBytes [] := ⟨Nat.zero_le _, Nat.zero_le _⟩
  have hlong : ∀ line : Text, maxBytes < line.size → ¬ Fits maxLines maxBytes [line] := by
    intro line hline hfits
    have hcost := hfits.2
    simp only [Text.cost] at hcost
    omega
  refine ⟨[], ?_, ?_⟩
  · simpa [iterLines, hlines] using
      LongestPrefix.of_next before.reverse hfits (hlong line (by omega))
  · simpa [iterLines, hpart] using LongestPrefix.of_next [] hfits (hlong part hsize)

theorem findIdx?_newline {before after : Text} (h : '\n' ∉ before) :
    (before ++ '\n' :: after).findIdx? (· = '\n') = some before.length := by
  have hnone : before.findIdx? (· = '\n') = none :=
    List.findIdx?_eq_none_iff.mpr fun c hc => by
      simpa using fun heq : c = '\n' => h (heq ▸ hc)
  rw [List.findIdx?_append, hnone, List.findIdx?_cons, if_pos (decide_eq_true rfl)]
  simp

/-- A part that does not start a line loses its first line, if it has more than one. -/
theorem Holds.snapshotText_eq (h : acc.Holds forgotten kept) :
    acc.snapshotText = if acc.tailStartsAtLineBoundary then kept
      else match kept.findIdx? (· = '\n') with
        | none => kept
        | some firstNewline => kept.drop (firstNewline + 1) := by
  rw [snapshotText, h.tailBuffer, Utf8.decodeReplacing_encode]

/-- **What was forgotten would not be shown.** -/
theorem Holds.sameShown (h : acc.Holds forgotten kept) (hbytes : 4 ≤ acc.maxBytes) :
    SameShown acc.maxLines acc.maxBytes (forgotten ++ kept) acc.snapshotText ∧
      (forgotten = [] → acc.snapshotText = kept) := by
  have hsize := kept.size_eq
  by_cases hboundary : acc.tailStartsAtLineBoundary = true
  · have htext : acc.snapshotText = kept := by
      simp [snapshotText, h.tailBuffer, hboundary]
    rw [htext]
    refine ⟨?_, fun _ => rfl⟩
    rcases h.boundary.mp hboundary with rfl | hlast
    · exact sameShown_of_lines [] rfl (by simp)
    · obtain ⟨before, rfl⟩ := List.getLast?_eq_some_iff.mp hlast
      have hlarge := h.enough.resolve_left (by simp)
      rw [List.append_assoc, List.singleton_append]
      refine sameShown_of_lines _ (Text.lines_append before kept) fun line _ hfits => ?_
      have hcost := hfits.2
      rw [Text.cost] at hcost
      omega
  · have hforgotten : forgotten ≠ [] := fun hnil => hboundary (h.boundary.mpr (.inl hnil))
    have hlarge := h.enough.resolve_left hforgotten
    refine ⟨?_, fun hnil => absurd hnil hforgotten⟩
    by_cases hnewline : '\n' ∈ kept
    · obtain ⟨before, after, rfl, hbefore⟩ := List.eq_append_cons_of_mem hnewline
      have htext : acc.snapshotText = after := by
        rw [h.snapshotText_eq, if_neg hboundary, findIdx?_newline hbefore]
        simp
      obtain ⟨init, last, -, hlines⟩ := forgotten.lines_append_of_not_mem hbefore
      rw [htext, ← List.append_assoc]
      refine sameShown_of_lines _ ((Text.lines_append _ _).trans (by rw [hlines])) ?_
      intro line hline hfits
      obtain rfl : last ++ before = line := by simpa using hline
      have hcost := hfits.2
      have hafter := Text.size_eq after
      rw [Text.cost, Text.size_append] at hcost
      rw [Text.size_append, Text.size_lf_cons] at hlarge
      omega
    · have htext : acc.snapshotText = kept := by
        have hnone : kept.findIdx? (· = '\n') = none :=
          List.findIdx?_eq_none_iff.mpr fun c hc => by
            simpa using fun heq : c = '\n' => hnewline (heq ▸ hc)
        rw [h.snapshotText_eq, if_neg hboundary, hnone]
      obtain ⟨init, last, -, hlines⟩ := forgotten.lines_append_of_not_mem hnewline
      rw [htext]
      refine sameShown_of_edge hlines (Text.lines_of_not_mem hnewline) (by omega) ?_
      rw [Text.size_append]
      omega

theorem truncatedBy_isSome_iff {truncation : Truncation} :
    (acc.truncatedBy truncation).isSome = true ↔ truncation.truncatedBy ≠ none ∨
      acc.maxLines < acc.totalLines ∨ acc.maxBytes < acc.totalBytes := by
  rw [truncatedBy]
  split
  next reason hreason => simp [hreason]
  next hreason =>
    split
    next hlines => simp [hlines]
    next hlines =>
      split
      next hbytes => simp [hbytes]
      next hbytes => simp [hreason, hlines, hbytes]

/-- The totals tell whether anything was left out, of what is kept or before it. -/
theorem Holds.truncated_iff (h : acc.Holds forgotten kept) (hlines : 1 ≤ acc.maxLines)
    (hbytes : 4 ≤ acc.maxBytes) {truncation : Truncation} {shown : List Text}
    (hshows : truncation.Shows acc.snapshotText shown)
    (hmaxLines : truncation.maxLines = acc.maxLines)
    (hmaxBytes : truncation.maxBytes = acc.maxBytes) :
    (acc.truncatedBy truncation).isSome = true ↔
      ¬ Fits acc.maxLines acc.maxBytes (forgotten ++ kept).lines := by
  have htotalLines : acc.maxLines < acc.totalLines ↔
      acc.maxLines < (forgotten ++ kept).lines.length := by
    rw [h.totalLines]
    split
    next hnil => simp [hnil, Text.length_lines]; omega
    next => rfl
  have hpart : truncation.truncatedBy ≠ none → ¬ Fits acc.maxLines acc.maxBytes
      (forgotten ++ kept).lines := by
    intro hreason
    have htruncated : truncation.truncated = true := by
      simpa using fun hfalse => hreason (hshows.truncatedBy.mpr hfalse)
    have hfits := hshows.truncated.mp htruncated
    rw [hmaxLines, hmaxBytes] at hfits
    rcases h.enough with rfl | hlarge
    · rwa [(h.sameShown hbytes).2 rfl] at hfits
    · rw [fits_lines_iff, Text.size_append]
      omega
  rw [truncatedBy_isSome_iff, htotalLines, h.totalBytes]
  constructor
  · rintro (hreason | hover | hover)
    · exact hpart hreason
    · exact fun hfits => by have := (fits_lines_iff.mp hfits).1; omega
    · exact fun hfits => by have := (fits_lines_iff.mp hfits).2; omega
  · intro hfits
    rw [fits_lines_iff] at hfits
    omega

/-- **A snapshot is the truncation of everything.** -/
theorem Holds.snapshot_agrees (h : acc.Holds forgotten kept) (hlines : 1 ≤ acc.maxLines)
    (hbytes : 4 ≤ acc.maxBytes) :
    acc.snapshot.Agrees (forgotten ++ kept)
      (truncateTail (forgotten ++ kept) acc.maxLines acc.maxBytes) := by
  obtain ⟨⟨shown, hwhole, hpart⟩, -⟩ := h.sameShown hbytes
  obtain ⟨shownWhole, hlongest, hwholeShows⟩ :=
    truncateText_shows hlines acc.maxBytes (forgotten ++ kept) .tail
  obtain rfl := hlongest.unique prefixClosed_fits hwhole
  obtain ⟨shownPart, hlongest', hpartShows⟩ :=
    truncateText_shows hlines acc.maxBytes acc.snapshotText .tail
  obtain rfl := hlongest'.unique prefixClosed_fits hpart
  have hcontent : acc.snapshot.content
      = (truncateTail (forgotten ++ kept) acc.maxLines acc.maxBytes).content := by
    have hkept := hpartShows.content
    have hfull := hwholeShows.content
    rw [truncateText_keep] at hkept hfull
    exact hkept.trans hfull.symm
  constructor
  case content => exact hcontent
  case truncated =>
    have htruncated := h.truncated_iff hlines hbytes hpartShows (by simp) (by simp)
    have hfull := hwholeShows.truncated
    rw [truncateText_maxLines, truncateText_maxBytes] at hfull
    exact Bool.eq_iff_iff.mpr (htruncated.trans hfull.symm)
  case outputLines => exact hpartShows.outputLines.trans hwholeShows.outputLines.symm
  case outputBytes =>
    have hsize := congrArg Text.size hcontent
    exact hpartShows.outputBytes.trans (hsize.trans hwholeShows.outputBytes.symm)
  case edgeLineExceedsLimit =>
    exact Bool.eq_iff_iff.mpr
      (hpartShows.edgeLineExceedsLimit.trans hwholeShows.edgeLineExceedsLimit.symm)
  case totalBytes => exact h.totalBytes.trans hwholeShows.totalBytes.symm
  case totalLines =>
    refine h.totalLines.trans ?_
    rw [← hwholeShows.totalLines]
    rfl

end OutputAccumulator

end Tile
