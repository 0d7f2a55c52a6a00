import Tile.Tools.Bash
import Tile.Tools.Support.MaximalEdge

/-!
# Tools/Support/OutputTail — the last line of a command's output

The rolling buffer holds the longest tail of the output that it has room for (`HoldsTail`).  What
an output ends with decides what is left of it: an oversized last line is reported, but **not one
with a newline behind it** (`showsLast_iff`), which leaves an empty content for the lines shown.
-/

namespace Tile

/-! ## The rolling buffer -/

theorem length_takeWhile_append_le {α : Type} {p : α → Bool} (before : List α) {a : α}
    (ha : p a = false) (after : List α) :
    ((before ++ a :: after).takeWhile p).length ≤ before.length := by
  induction before with
  | nil => simp [ha]
  | cons b before ih =>
    rw [List.cons_append, List.takeWhile_cons]
    split
    · simpa using ih
    · simp

/-- A boundary is the first one from where it was asked for. -/
theorem utf8BoundaryAtOrAfter_le {before after : Text} {start : Nat} (h : start ≤ before.size) :
    utf8BoundaryAtOrAfter (before ++ after).encode start ≤ before.size := by
  have hdrop : (before ++ after).encode.drop start
      = before.encode.drop start ++ after.encode := by
    rw [Text.encode_append, List.drop_append_of_le_length h]
  cases after with
  | nil =>
    have hle := List.takeWhile_sublist (l := (before ++ []).encode.drop start)
      (fun b => decide (b.val &&& 0xC0 = 0x80)) |>.length_le
    rw [hdrop, Text.encode_nil, List.append_nil, List.length_drop] at hle
    rw [utf8BoundaryAtOrAfter, hdrop, Text.encode_nil, List.append_nil]
    rw [Text.size] at *
    omega
  | cons c after =>
    obtain ⟨lead, tail, hchar, hlead, -⟩ := Text.exists_lead c
    have hstop := length_takeWhile_append_le (before.encode.drop start)
      (p := fun b : Byte => decide (b.val &&& 0xC0 = 0x80)) (a := lead)
      (decide_eq_false fun htail => hlead ((and_eq_iff_isTail lead).mp htail))
      (tail ++ Text.encode after)
    rw [List.length_drop] at hstop
    rw [utf8BoundaryAtOrAfter, hdrop, Text.encode_cons, hchar, List.cons_append]
    rw [Text.size] at *
    omega

/-- Trimming keeps the longest tail within the limit. -/
theorem exists_trimStart_longest (text : Text) (limit : Nat) :
    ∃ before after, text = before ++ after ∧ trimStart text.encode limit = before.size ∧
      after.size ≤ limit ∧ ∀ init c, before = init ++ [c] → limit < Text.size [c] + after.size := by
  rw [trimStart]
  split
  next hlimit => exact ⟨[], text, rfl, rfl, hlimit, by simp⟩
  next hlimit =>
    have hsize : Text.size text = text.encode.length := rfl
    obtain ⟨before, after, rfl, hboundary, hle, -⟩ :=
      exists_boundary text (text.encode.length - limit) (by omega)
    refine ⟨before, after, rfl, hboundary, ?_, ?_⟩
    · rw [Text.size_append] at hsize
      omega
    · rintro init c rfl
      by_contra hroom
      rw [Text.size_append, Text.size_append] at hsize
      have hfirst := @utf8BoundaryAtOrAfter_le init (c :: after)
        ((Text.encode (init ++ [c] ++ after)).length - limit) (by omega)
      rw [List.append_cons, hboundary, Text.size_append] at hfirst
      obtain ⟨lead, tail, hchar, -⟩ := Text.exists_lead c
      have hpos : 0 < Text.size [c] := by simp [Text.size_cons, hchar]
      omega

namespace OutputAccumulator

/-- The buffer holds the longest tail of `forgotten ++ kept` that it has room for. -/
structure HoldsTail (acc : OutputAccumulator) (forgotten kept : Text) : Prop where
  tailBuffer : acc.tailBuffer = kept.encode
  bounded : kept.size ≤ acc.maxRollingBytes
  longest : ∀ before c, forgotten = before ++ [c] → acc.maxRollingBytes < Text.size [c] + kept.size

theorem HoldsTail.append {acc : OutputAccumulator} {forgotten kept : Text}
    (h : acc.HoldsTail forgotten kept) (text : Text) :
    ∃ forgotten' kept', (acc.appendDecodedText text).HoldsTail forgotten' kept' ∧
      forgotten' ++ kept' = forgotten ++ kept ++ text := by
  have hrolling : (acc.appendDecodedText text).maxRollingBytes = acc.maxRollingBytes := by
    simp [maxRollingBytes]
  by_cases hnil : text = []
  · subst hnil
    exact ⟨forgotten, kept, by rwa [appendDecodedText, if_pos rfl], by simp⟩
  · have hbuffer : acc.tailBuffer ++ text.encode = (kept ++ text).encode := by
      rw [h.tailBuffer, Text.encode_append]
    obtain ⟨before, after, hsplit, hstart, hbounded, hlongest⟩ :=
      exists_trimStart_longest (kept ++ text) acc.maxRollingBytes
    refine ⟨forgotten ++ before, after, ⟨?_, hrolling ▸ hbounded, ?_⟩,
      by rw [List.append_assoc, ← hsplit, List.append_assoc]⟩
    · rw [appendDecodedText, if_neg hnil]
      simp only [hbuffer, hstart]
      rw [hsplit, Text.encode_append, Text.size, List.drop_left]
    · intro init c hinit
      rw [hrolling]
      rcases before.eq_nil_or_concat with rfl | ⟨init', c', rfl⟩
      · rw [List.append_nil] at hinit
        obtain rfl : kept ++ text = after := hsplit
        have := h.longest init c hinit
        rw [Text.size_append]
        omega
      · rw [List.concat_eq_append, ← List.append_assoc] at hinit
        obtain ⟨-, hc⟩ := List.append_inj' hinit rfl
        exact hlongest init' c (by rw [List.concat_eq_append, hc])

/-- **What appending text preserves holds of a finished accumulator**, however the bytes are cut. -/
theorem finish_induction {motive : OutputAccumulator → Text → Prop} {acc : OutputAccumulator}
    (hfinished : acc.finished = false) (hpending : acc.pending = []) (hacc : motive acc [])
    (happend : ∀ acc seen text, motive acc seen →
      motive (acc.appendDecodedText text) (seen ++ text))
    (hframe : ∀ acc seen pending finished, motive acc seen →
      motive { acc with pending, finished } seen) (chunks : List Bytes) :
    ∃ acc', acc.accumulateAll chunks = .ok acc' ∧ acc'.finish.1 = acc'.finish.2.snapshot ∧
      motive acc'.finish.2 (Utf8.decodeReplacing chunks.flatten) := by
  have hseen : acc.finished = false ∧ acc.pending = (Utf8.decodeChunk [] []).2 ∧
      motive acc (Utf8.decodeChunk [] []).1 := ⟨hfinished, hpending, hacc⟩
  obtain ⟨acc', hacc', hfinished', hpending', hmotive⟩ := accumulateAll_induction
    (motive := fun acc data => acc.finished = false ∧
      acc.pending = (Utf8.decodeChunk [] data).2 ∧ motive acc (Utf8.decodeChunk [] data).1)
    (by
      rintro acc data chunk ⟨hfinished, hpending, hmotive⟩
      refine ⟨_, by rw [accumulate, hfinished, if_neg Bool.false_ne_true], by simp [hfinished], ?_,
        ?_⟩
      · rw [Utf8.decodeChunk_append, hpending]
      · rw [Utf8.decodeChunk_append, ← hpending]
        exact hframe _ _ _ _ (happend acc _ _ hmotive))
    hseen chunks
  refine ⟨acc', hacc', rfl, ?_⟩
  rw [List.nil_append] at hpending' hmotive
  rw [finish, hfinished', if_neg Bool.false_ne_true, Utf8.decodeReplacing, ← hpending']
  exact hframe _ _ _ _ (happend acc' _ _ hmotive)

end OutputAccumulator

/-! ## What an output ends with -/

/-- The output ends with this line and `j` newlines behind it. -/
structure EndsWith (text head line : Text) (j : Nat) : Prop where
  eq : text = head ++ (line ++ List.replicate j '\n')
  head : head = [] ∨ head.getLast? = some '\n'
  line : '\n' ∉ line

theorem size_newlines (j : Nat) : Text.size (List.replicate j '\n') = j := by
  induction j with
  | zero => rfl
  | succ j ih => rw [List.replicate_succ, Text.size_lf_cons, ih, Nat.add_comm]

theorem joinLines_empty_lines (line : Text) (j : Nat) :
    Text.joinLines (line :: List.replicate j []) = line ++ List.replicate j '\n' := by
  induction j generalizing line with
  | zero => simp [Text.joinLines]
  | succ j ih =>
    rw [List.replicate_succ, Text.joinLines, List.intercalate_cons_cons, ← Text.joinLines, ih]
    simp [List.replicate_succ]

theorem joinLines_append (before : List Text) (line : Text) (j : Nat) :
    Text.joinLines (before ++ line :: List.replicate j [])
      = before.flatMap (· ++ ['\n']) ++ (line ++ List.replicate j '\n') := by
  induction before with
  | nil => exact joinLines_empty_lines line j
  | cons first before ih =>
    obtain ⟨next, rest, hnext⟩ :=
      List.exists_cons_of_ne_nil (show before ++ line :: List.replicate j [] ≠ [] by simp)
    rw [hnext] at ih
    rw [List.cons_append, hnext, Text.joinLines, List.intercalate_cons_cons, ← Text.joinLines, ih]
    simp

theorem endsWith_of_lines {text line : Text} {before : List Text} {j : Nat}
    (h : text.lines = before ++ line :: List.replicate j []) :
    EndsWith text (before.flatMap (· ++ ['\n'])) line j where
  eq := by rw [← joinLines_append, ← h, Text.joinLines_lines]
  head := by
    rcases before.eq_nil_or_concat with rfl | ⟨init, last, rfl⟩
    · exact .inl rfl
    · exact .inr (by simp)
  line := by
    refine @Text.not_mem_of_mem_lines text _ ?_
    rw [h]
    simp

namespace OutputAccumulator

variable {acc : OutputAccumulator} {forgotten kept head line : Text} {j : Nat}

/-- A last line that the buffer has room for is among the lines a snapshot looks at. -/
theorem lt_length_snapshotText (h : acc.Holds forgotten kept) (htail : acc.HoldsTail forgotten kept)
    (hends : EndsWith (forgotten ++ kept) head line j)
    (hroom : line.size + j ≤ acc.maxRollingBytes) : j < acc.snapshotText.lines.length := by
  have hsize : Text.size (line ++ List.replicate j '\n') = line.size + j := by
    rw [Text.size_append, size_newlines]
  -- the whole line is kept
  obtain ⟨init, rfl, rfl⟩ : ∃ init, head = forgotten ++ init ∧
      kept = init ++ (line ++ List.replicate j '\n') := by
    obtain ⟨init, hinit, hrest⟩ | ⟨cut, hcut, hrest⟩ := List.append_eq_append_iff.mp hends.eq
    · exact ⟨init, hinit, hrest⟩
    · rcases cut.eq_nil_or_concat with rfl | ⟨before, c, rfl⟩
      · exact ⟨[], by simpa using hcut.symm, by simpa using hrest.symm⟩
      · rw [List.concat_eq_append] at hcut hrest
        have hfull := htail.longest (head ++ before) c (by rw [hcut, List.append_assoc])
        rw [hrest, Text.size_append, Text.size_append] at hsize
        omega
  have hcount : (line ++ List.replicate j '\n').count '\n' = j := by
    rw [List.count_append, List.count_eq_zero.mpr hends.line, List.count_replicate_self,
      Nat.zero_add]
  rw [Text.length_lines, h.snapshotText_eq]
  split
  next hboundary => rw [List.count_append, hcount]; omega
  next hboundary =>
    have hnewline : '\n' ∈ init := by
      rcases init.eq_nil_or_concat with rfl | ⟨before, c, rfl⟩
      · rw [List.append_nil] at hends
        exact absurd (h.boundary.mpr hends.head) hboundary
      · have hlast := hends.head.resolve_left (by simp)
        rw [List.concat_eq_append, ← List.append_assoc, List.getLast?_concat] at hlast
        simp [Option.some.inj hlast]
    obtain ⟨before, after, rfl, hbefore⟩ := List.eq_append_cons_of_mem hnewline
    have hfind : (before ++ '\n' :: after ++ (line ++ List.replicate j '\n')).findIdx? (· = '\n')
        = some before.length := by
      rw [List.append_assoc, List.cons_append, findIdx?_newline hbefore]
    rw [hfind]
    have hdrop : (before ++ '\n' :: after ++ (line ++ List.replicate j '\n')).drop
        (before.length + 1) = after ++ (line ++ List.replicate j '\n') := by
      rw [List.append_assoc, ← List.drop_drop, List.drop_left]
      rfl
    change _ < ((before ++ '\n' :: after ++ (line ++ List.replicate j '\n')).drop
        (before.length + 1)).count '\n' + 1
    rw [hdrop, List.count_append, hcount]
    omega

/-- A last line that the buffer has no room for leaves only the empty lines behind it. -/
theorem length_snapshotText (h : acc.Holds forgotten kept) (htail : acc.HoldsTail forgotten kept)
    (hends : EndsWith (forgotten ++ kept) head line j) (hpos : 0 < j)
    (hj : j + 3 < acc.maxRollingBytes) (hlarge : acc.maxRollingBytes < line.size + j) :
    acc.snapshotText.lines.length = j := by
  have hbounded := htail.bounded
  have hkept : j < kept.size := by
    rcases h.enough with rfl | henough
    · rw [List.nil_append] at hends
      rw [hends.eq, Text.size_append, Text.size_append, size_newlines]
      rw [hends.eq, Text.size_append, Text.size_append, size_newlines] at hbounded
      omega
    · rw [maxRollingBytes] at hj
      omega
  -- the buffer starts inside of the line
  obtain ⟨first, last, hline, hne, hforgotten, rfl⟩ : ∃ first last, line = first ++ last ∧
      first ≠ [] ∧ forgotten = head ++ first ∧ kept = last ++ List.replicate j '\n' := by
    obtain ⟨init, -, rfl⟩ | ⟨cut, hcut, hrest⟩ := List.append_eq_append_iff.mp hends.eq
    · rw [Text.size_append, Text.size_append, size_newlines] at hbounded
      omega
    · obtain ⟨last, hlast, hkeptEq⟩ | ⟨newlines, hnewlines, hrest'⟩ :=
        List.append_eq_append_iff.mp hrest.symm
      · refine ⟨cut, last, hlast, ?_, hcut, hkeptEq⟩
        rintro rfl
        rw [hkeptEq, ← List.nil_append last, ← hlast, Text.size_append, size_newlines] at hbounded
        omega
      · have hsize := congrArg Text.size hrest'
        rw [size_newlines, Text.size_append] at hsize
        omega
  have hfirst : forgotten.getLast? = some '\n' → False := by
    rw [hforgotten, List.getLast?_append_of_ne_nil _ hne]
    exact fun hlast => hends.line (hline ▸ List.mem_append_left _ (List.mem_of_getLast? hlast))
  have hboundary : ¬ acc.tailStartsAtLineBoundary = true := fun hstarts =>
    (h.boundary.mp hstarts).elim
      (fun hnil => hne (by simp [hnil] at hforgotten; exact hforgotten.2))
      hfirst
  have hlast : '\n' ∉ last := fun hmem => hends.line (hline ▸ List.mem_append_right _ hmem)
  obtain ⟨j, rfl⟩ := Nat.exists_eq_add_of_le' hpos
  have hnewlines : List.replicate (j + 1) '\n' = '\n' :: List.replicate j '\n' := rfl
  rw [Text.length_lines, h.snapshotText_eq, if_neg hboundary, hnewlines, findIdx?_newline hlast]
  have hdrop : (last ++ '\n' :: List.replicate j '\n').drop (last.length + 1)
      = List.replicate j '\n' := by
    rw [← List.drop_drop, List.drop_left]
    rfl
  change ((last ++ '\n' :: List.replicate j '\n').drop (last.length + 1)).count '\n' + 1 = j + 1
  rw [hdrop, List.count_replicate_self]

/-- The accumulator, with the default limits, has seen this text. -/
structure Follows (acc : OutputAccumulator) (text : Text) : Prop where
  maxLines : acc.maxLines = OUTPUT_LINE_LIMIT
  maxBytes : acc.maxBytes = OUTPUT_BYTE_LIMIT
  held : ∃ forgotten kept, acc.Holds forgotten kept ∧ acc.HoldsTail forgotten kept ∧
    forgotten ++ kept = text

theorem encode_inj {text text' : Text} (h : text.encode = text'.encode) : text = text' := by
  rw [← Utf8.decodeReplacing_encode text, h, Utf8.decodeReplacing_encode]

theorem Follows.append {text : Text} (h : acc.Follows text) (more : Text) :
    (acc.appendDecodedText more).Follows (text ++ more) := by
  obtain ⟨forgotten, kept, hholds, htail, rfl⟩ := h.held
  obtain ⟨forgotten', kept', hholds', htext'⟩ := hholds.append more
  obtain ⟨forgotten'', kept'', htail'', htext''⟩ := htail.append more
  obtain rfl := encode_inj (hholds'.tailBuffer.symm.trans htail''.tailBuffer)
  obtain rfl := List.append_cancel_right (htext'.trans htext''.symm)
  exact ⟨by simp [h.maxLines], by simp [h.maxBytes], _, _, hholds', htail'', htext'⟩

theorem follows_finish (chunks : List Bytes) :
    ∃ acc, ({} : OutputAccumulator).accumulateAll chunks = .ok acc ∧
      acc.finish.1 = acc.finish.2.snapshot ∧
      acc.finish.2.Follows (Utf8.decodeReplacing chunks.flatten) := by
  refine finish_induction rfl rfl ⟨rfl, rfl, [], [], holds_new _ _, ⟨rfl, Nat.zero_le _, by simp⟩,
    rfl⟩ (fun acc seen text h => h.append text) (fun acc seen pending finished h => ?_) chunks
  obtain ⟨forgotten, kept, hholds, htail, hseen⟩ := h.held
  exact ⟨h.maxLines, h.maxBytes, forgotten, kept, ⟨hholds.tailBuffer, hholds.boundary,
    hholds.enough, hholds.totalBytes, hholds.totalLines⟩,
    ⟨htail.tailBuffer, htail.bounded, htail.longest⟩, hseen⟩

end OutputAccumulator

/-! ## The last line that is not empty -/

/-- A snapshot that is cut for its bytes shows this line in full, or says that the last line is
omitted. -/
def OutputSnapshot.ShowsLast (snapshot : OutputSnapshot) (line : Text) : Prop :=
  snapshot.truncation.truncatedBy = some .bytes →
    line ∈ snapshot.content.lines ∨ snapshot.truncation.edgeLineExceedsLimit = true

section ShowsLast

variable {lines before : List Text} {line : Text} {j k : Nat}

theorem edgeLines_empty_lines (hk : k ≤ j) :
    edgeLines (before ++ line :: List.replicate j []) .tail k = List.replicate k [] := by
  have hindex : (before ++ line :: List.replicate j []).length - k
      = (before ++ [line]).length + (j - k) := by
    simp
    omega
  rw [edgeLines, hindex, ← List.drop_drop, List.append_cons before line (List.replicate j []),
    List.drop_left, List.drop_replicate, Nat.sub_sub_self hk]

theorem edgeLines_line :
    edgeLines (before ++ line :: List.replicate j []) .tail (j + 1)
      = line :: List.replicate j [] := by
  have hindex : (before ++ line :: List.replicate j []).length - (j + 1) = before.length := by
    simp
  rw [edgeLines, hindex, List.drop_left]

theorem joinLines_replicate_size (k : Nat) :
    (Text.joinLines (List.replicate k [])).size = k - 1 := by
  cases k with
  | zero => rfl
  | succ k => rw [List.replicate_succ, joinLines_empty_lines, List.nil_append, size_newlines]; rfl

/-- How many lines are kept, where the last is followed by `j` empty ones. -/
theorem lt_count_iff {maxLines maxBytes : Nat}
    (h : IsGreatest (fittingCounts (before ++ line :: List.replicate j []) .tail maxLines maxBytes)
      k) : j < k ↔ j < maxLines ∧ line.size + j ≤ maxBytes := by
  have hmem : j + 1 ∈ fittingCounts (before ++ line :: List.replicate j []) .tail maxLines maxBytes
      ↔ j < maxLines ∧ line.size + j ≤ maxBytes := by
    rw [fittingCounts, Set.mem_ofPred_eq, edgeLines_line, joinLines_empty_lines, Text.size_append,
      size_newlines, Nat.le_min]
    simp only [List.length_append, List.length_cons, List.length_replicate]
    omega
  rw [← hmem]
  exact ⟨fun hlt => mem_fittingCounts_of_le h hlt, fun hfits => h.2 hfits⟩

theorem min_le_count {maxLines maxBytes : Nat} (hroom : maxLines ≤ maxBytes)
    (h : IsGreatest (fittingCounts (before ++ line :: List.replicate j []) .tail maxLines maxBytes)
      k) : min j maxLines ≤ k := by
  refine h.2 ⟨?_, ?_⟩
  · simp
    omega
  · rw [edgeLines_empty_lines (Nat.min_le_left _ _), joinLines_replicate_size]
    omega

/-- The lines that are shown have the last line that is not empty, if there are more of them than
empty ones behind it. -/
theorem mem_lines_iff (hne : line ≠ []) (hno : ∀ other ∈ before, '\n' ∉ other)
    (hline : '\n' ∉ line) (hk : k ≤ (before ++ line :: List.replicate j []).length) :
    line ∈ (Text.joinLines
      (edgeLines (before ++ line :: List.replicate j []) .tail k)).lines ↔ j < k := by
  rcases Nat.lt_or_ge j k with hlt | hge
  · refine iff_of_true ?_ hlt
    obtain ⟨i, hi⟩ : ∃ i, i ≤ before.length ∧
        (before ++ line :: List.replicate j []).length - k = i :=
      ⟨_, by simp at hk ⊢; omega, rfl⟩
    have hedge : edgeLines (before ++ line :: List.replicate j []) .tail k
        = before.drop i ++ line :: List.replicate j [] := by
      rw [edgeLines, hi.2, List.drop_append_of_le_length hi.1]
    rw [hedge, Text.lines_joinLines (by simp)]
    · simp
    · intro other hother
      rcases List.mem_append.mp hother with hother | hother
      · exact hno other (List.mem_of_mem_drop hother)
      · rcases List.mem_cons.mp hother with rfl | hother
        · exact hline
        · simp [List.eq_of_mem_replicate hother]
  · refine iff_of_false (fun hmem => ?_) (Nat.not_lt.mpr hge)
    rw [edgeLines_empty_lines hge] at hmem
    cases k with
    | zero => simp [Text.joinLines, Text.lines, hne] at hmem
    | succ k =>
      rw [Text.lines_joinLines (by simp) fun other hother => by
        simp [List.eq_of_mem_replicate hother]] at hmem
      exact hne (List.eq_of_mem_replicate hmem)

end ShowsLast

/-- What a snapshot says of its content, by the number of lines it shows. -/
theorem OutputAccumulator.snapshot_of_longest {acc : OutputAccumulator} {shown : List Text}
    (hlimit : 1 ≤ acc.maxLines) (h : LongestPrefix (Fits acc.maxLines acc.maxBytes)
      (iterLines acc.snapshotText.lines .tail) shown) :
    acc.snapshot.content = Text.joinLines (edgeLines acc.snapshotText.lines .tail shown.length) ∧
      (acc.snapshot.truncation.edgeLineExceedsLimit = true ↔ shown.length = 0) ∧
      (acc.snapshot.truncation.truncatedBy = some .bytes ↔
        shown.length ≠ acc.maxLines ∧ shown.length ≠ acc.snapshotText.lines.length ∨
        shown.length = acc.snapshotText.lines.length ∧ acc.totalLines ≤ acc.maxLines ∧
          acc.maxBytes < acc.totalBytes) := by
  have htruncation := truncateText_of_longest hlimit h
  have hlength : shown.length ≤ acc.snapshotText.lines.length := by
    simpa using h.isPrefix.length_le
  refine ⟨?_, ?_, ?_⟩
  · rw [snapshot, truncateTail, htruncation]
    rfl
  · rw [snapshot, truncateTail, htruncation]
    exact decide_eq_true_iff
  · have htruncatedBy : acc.snapshot.truncation.truncatedBy = acc.truncatedBy
        (keptEdge acc.snapshotText .tail acc.maxLines acc.maxBytes shown.length) := by
      rw [snapshot, truncateTail, htruncation]
      rfl
    rw [htruncatedBy, truncatedBy, keptEdge]
    dsimp only
    split_ifs <;> simp <;> omega

theorem OutputAccumulator.Follows.showsLast_finish_iff {acc : OutputAccumulator} {text line : Text}
    {before : List Text} {j : Nat} (hfollows : acc.Follows text) (hne : line ≠ [])
    (hlines : text.lines = before ++ line :: List.replicate j []) :
    acc.snapshot.ShowsLast line ↔
      j = 0 ∨ OUTPUT_LINE_LIMIT ≤ j ∨ line.size + j ≤ OUTPUT_BYTE_LIMIT ∨
        OUTPUT_BYTE_LIMIT * 2 < line.size + j ∧ OUTPUT_LINE_LIMIT < text.lines.length := by
  obtain ⟨hmaxLines, hmaxBytes, forgotten, kept, hholds, htail, rfl⟩ := hfollows
  have hends := endsWith_of_lines hlines
  obtain ⟨shown, hwhole, hpart⟩ :=
    (hholds.sameShown (by rw [hmaxBytes]; decide)).1
  obtain ⟨hcontent, hedge, hreason⟩ :=
    OutputAccumulator.snapshot_of_longest (by rw [hmaxLines]; decide) hpart
  rw [edgeLines_of_longest hpart, ← edgeLines_of_longest hwhole] at hcontent
  rw [hmaxLines, hmaxBytes] at hwhole hreason
  have hgreatest := isGreatest_of_longest hwhole
  have hplen : shown.length ≤ acc.snapshotText.lines.length := by
    simpa using hpart.isPrefix.length_le
  have hmem : line ∈ acc.snapshot.content.lines ↔ j < shown.length := by
    rw [hcontent, hlines]
    refine mem_lines_iff hne (fun other hother => ?_) hends.line ?_
    · refine @Text.not_mem_of_mem_lines (forgotten ++ kept) _ ?_
      rw [hlines]
      exact List.mem_append_left _ hother
    · rw [← hlines]
      simpa using hwhole.isPrefix.length_le
  rw [hlines] at hgreatest
  have hcount := lt_count_iff hgreatest
  have hmin := min_le_count (by decide) hgreatest
  have hlimit : shown.length ≤ OUTPUT_LINE_LIMIT := (Nat.le_min.mp hgreatest.1.1).2
  have htotalLines : acc.totalLines = (forgotten ++ kept).lines.length := by
    rw [hholds.totalLines, if_neg]
    intro hnil
    have hmem : line ∈ (forgotten ++ kept).lines := by simp [hlines]
    rw [hnil] at hmem
    exact hne (List.mem_singleton.mp hmem)
  have htotalBytes : line.size + j ≤ acc.totalBytes := by
    rw [hholds.totalBytes, hends.eq, Text.size_append, Text.size_append, size_newlines]
    omega
  have hlength : j < (forgotten ++ kept).lines.length := by
    rw [hlines]
    simp
    omega
  have hroom := OutputAccumulator.lt_length_snapshotText hholds htail hends
  have hover := OutputAccumulator.length_snapshotText hholds htail hends
  rw [OutputAccumulator.maxRollingBytes, hmaxBytes] at hroom hover
  rw [OutputSnapshot.ShowsLast, hreason, hmem, hedge, htotalLines]
  simp only [OUTPUT_LINE_LIMIT, OUTPUT_BYTE_LIMIT] at *
  omega

/-- An output of few lines that does not fit is cut for its bytes. -/
theorem OutputAccumulator.Follows.truncatedBy_finish {acc : OutputAccumulator} {text : Text}
    (hfollows : acc.Follows text) (hfew : text.lines.length ≤ OUTPUT_LINE_LIMIT)
    (hlarge : OUTPUT_BYTE_LIMIT < text.size) :
    acc.snapshot.truncation.truncatedBy = some .bytes := by
  obtain ⟨hmaxLines, hmaxBytes, forgotten, kept, hholds, -, rfl⟩ := hfollows
  obtain ⟨shown, hwhole, hpart⟩ := (hholds.sameShown (by rw [hmaxBytes]; decide)).1
  obtain ⟨-, -, hreason⟩ :=
    OutputAccumulator.snapshot_of_longest (by rw [hmaxLines]; decide) hpart
  rw [hmaxLines, hmaxBytes] at hwhole hreason
  have hle : shown.length ≤ (forgotten ++ kept).lines.length := by
    simpa using hwhole.isPrefix.length_le
  have hpart : shown.length ≠ (forgotten ++ kept).lines.length := by
    intro hall
    have hshown := hwhole.isPrefix.eq_of_length (by simpa using hall)
    have hfits := fits_lines_iff.mp (fits_iterLines.mp (hshown ▸ hwhole.holds))
    exact absurd hfits.2 (Nat.not_le_of_lt hlarge)
  have htotalLines := hholds.totalLines
  rw [if_neg fun hnil => by rw [hnil] at hlarge; exact Nat.not_lt_zero _ hlarge] at htotalLines
  rw [hreason, htotalLines, hholds.totalBytes]
  omega

/-- **When the last line of an output is not lost.**  The default limits given, a snapshot that is
cut for its bytes shows the last line that is not empty or says that it is omitted, just when no
newline is behind that line, or at least as many as lines are shown, or the line and the newlines
fit the limit; or when they do not even fit the buffer and the snapshot is said to be cut for its
lines. -/
theorem showsLast_iff (chunks : List Bytes) :
    ∃ acc, ({} : OutputAccumulator).accumulateAll chunks = .ok acc ∧
      ∀ (before : List Text) (line : Text) (j : Nat), line ≠ [] →
        (Utf8.decodeReplacing chunks.flatten).lines = before ++ line :: List.replicate j [] →
        (acc.finish.1.ShowsLast line ↔
          j = 0 ∨ OUTPUT_LINE_LIMIT ≤ j ∨ line.size + j ≤ OUTPUT_BYTE_LIMIT ∨
            OUTPUT_BYTE_LIMIT * 2 < line.size + j ∧
              OUTPUT_LINE_LIMIT < (Utf8.decodeReplacing chunks.flatten).lines.length) := by
  obtain ⟨acc, haccumulate, hfinish, hfollows⟩ := OutputAccumulator.follows_finish chunks
  exact ⟨acc, haccumulate, fun before line j hne hlines => hfinish ▸
    hfollows.showsLast_finish_iff hne hlines⟩

/-- A line of 60000 characters. -/
def longLine : Text := List.replicate 60000 'x'

theorem size_longLine : longLine.size = 60000 := by
  have hsize : ∀ n, Text.size (List.replicate n 'x') = n := by
    intro n
    induction n with
    | zero => rfl
    | succ n ih =>
      have hchar : (Text.encodeChar 'x').length = 1 := by decide
      rw [List.replicate_succ, Text.size_cons, ih, hchar, Nat.add_comm]
  exact hsize 60000

theorem lines_longLine (text : Text) :
    Text.lines (longLine ++ '\n' :: text) = longLine :: text.lines := by
  have hno : '\n' ∉ longLine := fun hmem => absurd (List.eq_of_mem_replicate hmem) (by decide)
  rw [Text.lines_append, Text.lines_of_not_mem hno]
  rfl

/-- A last line without a newline behind it, in an output that is cut for its bytes. -/
theorem showsLast_iff_unterminated :
    ∃ acc,
      ({} : OutputAccumulator).accumulateAll [Text.encode (longLine ++ ['\n', 'b'])] = .ok acc ∧
      acc.finish.1.truncation.truncatedBy = some .bytes ∧ acc.finish.1.ShowsLast ['b'] := by
  obtain ⟨acc, haccumulate, hshows⟩ := showsLast_iff [Text.encode (longLine ++ ['\n', 'b'])]
  obtain ⟨_, haccumulate', hfinish, hfollows⟩ :=
    OutputAccumulator.follows_finish [Text.encode (longLine ++ ['\n', 'b'])]
  obtain rfl := Except.ok.inj (haccumulate.symm.trans haccumulate')
  rw [List.flatten_singleton, Utf8.decodeReplacing_encode] at hfollows hshows
  refine ⟨acc, haccumulate, ?_, (hshows [longLine] ['b'] 0 (by decide) (lines_longLine _)).mpr
    (.inl rfl)⟩
  rw [hfinish]
  refine hfollows.truncatedBy_finish ?_ ?_
  · rw [lines_longLine]
    decide
  · rw [Text.size_append, size_longLine]
    decide

/-- With a newline behind it, an oversized line is neither shown nor said to be omitted. -/
theorem not_showsLast_longLine :
    ∃ acc, ({} : OutputAccumulator).accumulateAll [Text.encode (longLine ++ ['\n'])] = .ok acc ∧
      ¬ acc.finish.1.ShowsLast longLine := by
  obtain ⟨acc, haccumulate, hfinish, hfollows⟩ :=
    OutputAccumulator.follows_finish [Text.encode (longLine ++ ['\n'])]
  refine ⟨acc, haccumulate, fun hshows => ?_⟩
  rw [List.flatten_singleton, Utf8.decodeReplacing_encode] at hfollows
  have hlines : Text.lines (longLine ++ ['\n']) = [] ++ longLine :: List.replicate 1 [] :=
    lines_longLine []
  have hne : longLine ≠ [] := fun hnil => by
    have := size_longLine
    rw [hnil] at this
    exact absurd this (by decide)
  rw [hfinish, hfollows.showsLast_finish_iff hne hlines, size_longLine, hlines] at hshows
  simp [OUTPUT_LINE_LIMIT, OUTPUT_BYTE_LIMIT] at hshows

end Tile
