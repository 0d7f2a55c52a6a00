import Mathlib.Data.List.TakeWhile
import Tile.ToolExecutor
import Tile.Tools.Support.Truncation

/-!
# Tools/Read — reading a file page by page

A page shows lines of a file from an offset on, as many as fit a line limit and the byte limit, and
its notice names the offset of the next one.  Whoever follows the notices from the first line on
sees **every line once** (`paging_reconstructs`), up to a line that is too long for any page.
-/

namespace Tile

namespace Read

/-- Readable file content after offset selection. -/
structure ReadSelection where
  content : Text
  startLine : Nat
  totalLines : Nat

/-- Convert a 1-indexed offset to a non-negative list index. -/
def startIndex : Option Int → Nat
  | none => 0
  | some offset => (offset - 1).toNat

/-- The offset as an f-string shows it. -/
def showOffset : Option Int → String
  | none => "None"
  | some offset => toString offset

/-- Select file content from the requested offset through the end. -/
def selectContent (content : Text) (offset : Option Int) : Except PyException ReadSelection :=
  let lines := content.lines
  let total := lines.length
  if startIndex offset ≥ total then
    .error
      { typeName := "ToolError"
        message := s!"Offset {showOffset offset} is beyond end of file ({total} lines total)" }
  else
    .ok
      { content := Text.joinLines (lines.drop (startIndex offset))
        startLine := startIndex offset + 1
        totalLines := total }

/-- Guidance when the first selected line exceeds the byte limit. -/
def formatFirstLineTooLarge (startLine : Nat) (firstLine : Text) (path : String) : String :=
  s!"[Line {startLine} is {formatSize firstLine.size}, exceeds {OUTPUT_BYTE_LIMIT_LABEL} limit. " ++
    s!"Use bash: sed -n '{startLine}p' {path} | head -c {OUTPUT_BYTE_LIMIT}]"

/-- The continuation notice for automatic truncation. -/
def truncationNotice (startLine endLine totalLines nextOffset : Nat)
    (truncatedBy : Option TruncationReason) : String :=
  if truncatedBy = some .lines then
    s!"Showing lines {startLine}-{endLine} of {totalLines}. Use offset={nextOffset} to continue."
  else
    s!"Showing lines {startLine}-{endLine} of {totalLines} ({OUTPUT_BYTE_LIMIT_LABEL} limit). " ++
      s!"Use offset={nextOffset} to continue."

/-- Truncated content with an offset continuation notice. -/
def formatTruncatedSelection (selection : ReadSelection) (truncation : Truncation) : Text :=
  let endLine := selection.startLine + truncation.outputLines - 1
  appendNoticeBlock truncation.content
    [truncationNotice selection.startLine endLine selection.totalLines (endLine + 1)
      truncation.truncatedBy]

/-- Build model-visible read text from selected content. -/
def buildOutputText (selection : ReadSelection) (truncation : Truncation) (path : String) : Text :=
  if truncation.edgeLineExceedsLimit then
    let firstLine := selection.content.lines.headD []
    (formatFirstLineTooLarge selection.startLine firstLine path).toList
  else if truncation.truncated then formatTruncatedSelection selection truncation
  else truncation.content

/-- Build read details when the UI has truncation to render. -/
def buildDetails (truncation : Truncation) : Option ToolOutputDetails :=
  let outputDetails := ToolOutputDetails.fromTruncation truncation
  if outputDetails.truncated = false then none else some outputDetails

/-- Build a text file read result from raw file content. -/
def buildResult (content : Text) (offset : Option Int) (path : String) (limit : Nat) :
    Except PyException TextResult := do
  let selection ← selectContent content offset
  let truncation := truncateHead selection.content limit OUTPUT_BYTE_LIMIT
  return { text := buildOutputText selection truncation path, details := buildDetails truncation }

end Read

/-! ## Paging -/

/-- One call of a paging: the offset that was asked for, and what came back. -/
structure Page where
  offset : Nat
  answer : Except PyException TextResult

/-- The number in front of what ends a continuation notice. -/
def namedOffset (text : Text) : Nat :=
  let digits := (text.reverse.drop " to continue.]".length).takeWhile Char.isDigit
  Nat.ofDigitChars 10 digits.reverse 0

/-- The offset that the notice of a page names.  Whether it has one is in its details: a file may
itself end with such words. -/
def continueAt (page : TextResult) : Option Nat :=
  match page.details with
  | none => none
  | some details => if details.edgeLineExceedsLimit then none else some (namedOffset page.text)

/-- Follow the notices, from an offset on; `none` when that takes more calls than allowed. -/
def paging (content : Text) (path : String) (limit : Nat) :
    (calls offset : Nat) → Option (List Page)
  | 0, _ => none
  | calls + 1, offset =>
    let answer := Read.buildResult content (some offset) path limit
    match answer with
    | .error _ => some [⟨offset, answer⟩]
    | .ok page =>
      match continueAt page with
      | none => some [⟨offset, answer⟩]
      | some next => (paging content path limit calls next).map (⟨offset, answer⟩ :: ·)

/-- Lines of a text by their numbers, which start at one; both ends are included. -/
structure LineRange where
  start : Nat
  stop : Nat

/-- The lines of the range. -/
def LineRange.of (range : LineRange) (lines : List Text) : List Text :=
  (lines.take range.stop).drop (range.start - 1)

/-- The page shows the lines of the range, and its notice names them and the next one.  Without a
notice, they are the last. -/
structure Page.Shows (content : Text) (page : Page) (range : LineRange) : Prop where
  offset : page.offset = range.start
  start_pos : 1 ≤ range.start
  start_le : range.start ≤ range.stop
  stop_le : range.stop ≤ content.lines.length
  answer :
    (range.stop = content.lines.length ∧
      page.answer = .ok { text := Text.joinLines (range.of content.lines) }) ∨
    (range.stop < content.lines.length ∧ ∃ truncatedBy details,
      page.answer = .ok
        { text := appendNoticeBlock (Text.joinLines (range.of content.lines))
            [Read.truncationNotice range.start range.stop content.lines.length (range.stop + 1)
              truncatedBy]
          details := some details })

/-- The numbers of the lines of the range. -/
def LineRange.numbers (range : LineRange) : List Nat :=
  List.range' range.start (range.stop + 1 - range.start)

/-! ## One page -/

/-- A decimal number is read back from in front of the end of a notice. -/
theorem namedOffset_append (before : Text) (n : Nat) :
    namedOffset (before ++ "=".toList ++ n.repr.toList ++ " to continue.]".toList) = n := by
  have hlength : " to continue.]".length = " to continue.]".toList.reverse.length := by
    rw [List.length_reverse, String.length_toList]
  have hdigits : ∀ c ∈ n.repr.toList.reverse, c.isDigit = true := fun c hc =>
    Nat.isDigit_of_mem_toDigits (by decide) (by decide)
      (Nat.toList_repr ▸ List.mem_reverse.mp hc)
  have hequals : ("=".toList.reverse ++ before.reverse).takeWhile Char.isDigit = [] := by simp
  simp only [namedOffset, List.reverse_append]
  rw [hlength, List.drop_left, List.takeWhile_append_of_pos hdigits, hequals, List.append_nil,
    List.reverse_reverse, Nat.toList_repr, Nat.ofDigitChars_ten_toDigits]

theorem namedOffset_notice (shown : Text) (startLine endLine totalLines next : Nat)
    (truncatedBy : Option TruncationReason) :
    namedOffset (appendNoticeBlock shown
      [Read.truncationNotice startLine endLine totalLines next truncatedBy]) = next := by
  have hself : ∀ s : String, toString s = s := fun _ => rfl
  have hnotice : ∃ before : Text, appendNoticeBlock shown
        [Read.truncationNotice startLine endLine totalLines next truncatedBy]
      = before ++ "=".toList ++ next.repr.toList ++ " to continue.]".toList := by
    rw [appendNoticeBlock, if_neg (List.cons_ne_nil _ _), Read.truncationNotice]
    let lines := s!"\n\n[Showing lines {startLine}-{endLine} of {totalLines}"
    split
    · exact ⟨shown ++ (lines ++ ". Use offset").toList, by simp [lines, hself]⟩
    · exact ⟨shown ++ (lines ++ s!" ({OUTPUT_BYTE_LIMIT_LABEL} limit). Use offset").toList,
        by simp [lines, hself]⟩
  obtain ⟨before, hnotice⟩ := hnotice
  rw [hnotice, namedOffset_append]

theorem LineRange.of_append (before shown left : List Text) :
    LineRange.of ⟨before.length + 1, before.length + shown.length⟩ (before ++ (shown ++ left))
      = shown := by
  rw [LineRange.of, Nat.add_sub_cancel, ← List.append_assoc, ← List.length_append, List.take_left,
    List.drop_left]

section Paging

variable {content : Text} {path : String} {limit : Nat}

/-- What is selected from an offset on are the lines from there on. -/
theorem buildResult_eq {before rest : List Text} (hlines : content.lines = before ++ rest)
    (hrest : rest ≠ []) :
    ∃ selection : Read.ReadSelection, selection.content.lines = rest ∧
      selection.startLine = before.length + 1 ∧ selection.totalLines = content.lines.length ∧
      Read.buildResult content (some ((before.length + 1 : Nat) : Int)) path limit = .ok
        { text := Read.buildOutputText selection
            (truncateHead selection.content limit OUTPUT_BYTE_LIMIT) path
          details := Read.buildDetails
            (truncateHead selection.content limit OUTPUT_BYTE_LIMIT) } := by
  have hindex : Read.startIndex (some ((before.length + 1 : Nat) : Int)) = before.length := by
    simp [Read.startIndex]
  have hlt : before.length < content.lines.length := by
    have hpos := List.length_pos_iff.mpr hrest
    rw [hlines, List.length_append]
    omega
  have hdrop : content.lines.drop before.length = rest := by rw [hlines, List.drop_left]
  refine ⟨⟨Text.joinLines rest, before.length + 1, content.lines.length⟩, ?_, rfl, rfl, ?_⟩
  · refine Text.lines_joinLines hrest fun line hline => ?_
    exact Text.not_mem_of_mem_lines (hlines ▸ List.mem_append_right _ hline)
  · rw [Read.buildResult, Read.selectContent, hindex, if_neg (Nat.not_le_of_lt hlt), hdrop]
    rfl

/-- **One page**: the message of a line that is too long, or lines that are not, and the notice of
the next one unless they are the last. -/
theorem page_cases (hlimit : 1 ≤ limit) (path : String) {before rest : List Text}
    (hlines : content.lines = before ++ rest) (hrest : rest ≠ []) :
    (∃ long after details, rest = long :: after ∧ OUTPUT_BYTE_LIMIT < long.size ∧
      details.edgeLineExceedsLimit = true ∧
      Read.buildResult content (some ((before.length + 1 : Nat) : Int)) path limit = .ok
        { text := (Read.formatFirstLineTooLarge (before.length + 1) long path).toList
          details := some details }) ∨
    ∃ shown left page, rest = shown ++ left ∧ shown ≠ [] ∧
      (∀ line ∈ shown, line.size ≤ OUTPUT_BYTE_LIMIT) ∧
      Read.buildResult content (some ((before.length + 1 : Nat) : Int)) path limit = .ok page ∧
      Page.Shows content ⟨before.length + 1, .ok page⟩
        ⟨before.length + 1, before.length + shown.length⟩ ∧
      continueAt page = if left = [] then none else some (before.length + shown.length + 1) := by
  obtain ⟨selection, hselected, hstart, htotal, hresult⟩ := buildResult_eq hlines hrest
  rw [hresult]
  rcases truncateHead_cases hlimit OUTPUT_BYTE_LIMIT selection.content with
    ⟨long, after, hsplit, hlong, htruncated, hedge⟩ |
    ⟨shown, left, hsplit, hne, hsizes, hcontent, hlength, hedge, htruncated⟩
  · obtain rfl := hselected.symm.trans hsplit
    refine .inl ⟨long, after, .fromTruncation _, rfl, hlong, hedge, ?_⟩
    simp [Read.buildOutputText, Read.buildDetails, ToolOutputDetails.fromTruncation, hedge,
      htruncated, hsplit, hstart]
  · obtain rfl := hselected.symm.trans hsplit
    refine .inr ⟨shown, left, _, rfl, hne, hsizes, rfl, ?_⟩
    have hpos := List.length_pos_iff.mpr hne
    have hcount := congrArg List.length hlines
    rw [List.length_append, List.length_append] at hcount
    have hrange : LineRange.of ⟨before.length + 1, before.length + shown.length⟩ content.lines
        = shown := by rw [hlines, LineRange.of_append]
    have hend : before.length + 1 + shown.length - 1 = before.length + shown.length := by omega
    generalize truncateHead selection.content limit OUTPUT_BYTE_LIMIT = truncation at *
    by_cases hleft : left = []
    · have htruncated := Bool.eq_false_iff.mpr fun h => htruncated.mp h hleft
      have hpage : (⟨Read.buildOutputText selection truncation path, Read.buildDetails truncation⟩ :
          TextResult) = { text := Text.joinLines shown } := by
        simp [Read.buildOutputText, Read.buildDetails, ToolOutputDetails.fromTruncation, hedge,
          htruncated, hcontent]
      rw [hleft, List.length_nil, Nat.add_zero] at hcount
      rw [hpage, if_pos hleft]
      exact ⟨⟨rfl, Nat.succ_pos _, Nat.add_le_add_left hpos _, hcount.ge,
        .inl ⟨hcount.symm, by rw [hrange]⟩⟩, rfl⟩
    · have htruncated := htruncated.mpr hleft
      have hleftPos := List.length_pos_iff.mpr hleft
      have hlt : before.length + shown.length < content.lines.length := by omega
      have hpage : (⟨Read.buildOutputText selection truncation path, Read.buildDetails truncation⟩ :
          TextResult) =
          { text := appendNoticeBlock (Text.joinLines shown)
              [Read.truncationNotice (before.length + 1) (before.length + shown.length)
                content.lines.length (before.length + shown.length + 1) truncation.truncatedBy]
            details := some (.fromTruncation truncation) } := by
        simp [Read.buildOutputText, Read.formatTruncatedSelection, Read.buildDetails,
          ToolOutputDetails.fromTruncation, hedge, htruncated, hcontent, hlength, hstart, htotal,
          hend]
      rw [hpage, if_neg hleft]
      refine ⟨⟨rfl, Nat.succ_pos _, Nat.add_le_add_left hpos _, hlt.le,
        .inr ⟨hlt, _, _, by rw [hrange]⟩⟩, ?_⟩
      simp [continueAt, ToolOutputDetails.fromTruncation, hedge, namedOffset_notice]

/-! ## From page to page -/

/-- The lines before the first that is too long. -/
def fittingLines (lines : List Text) : List Text := lines.takeWhile (·.size ≤ OUTPUT_BYTE_LIMIT)

theorem fittingLines_append {shown : List Text}
    (h : ∀ line ∈ shown, line.size ≤ OUTPUT_BYTE_LIMIT) (left : List Text) :
    fittingLines (shown ++ left) = shown ++ fittingLines left :=
  List.takeWhile_append_of_pos fun line hline => decide_eq_true (h line hline)

theorem fittingLines_of_long {long : Text} (h : OUTPUT_BYTE_LIMIT < long.size)
    (after : List Text) : fittingLines (long :: after) = [] :=
  List.takeWhile_cons_of_neg (by simpa using h)

/-- The message of a line that is too long. -/
def tooLongPage (path : String) (number : Nat) (long : Text) (details : ToolOutputDetails) :
    Page where
  offset := number
  answer := .ok
    { text := (Read.formatFirstLineTooLarge number long path).toList
      details := some details }

/-- What a paging ends with after the lines it shows: nothing more if they are all, and the message
of the next line if that is too long. -/
inductive Ending (content : Text) (path : String) (shown : List Text) : List Page → Prop
  | complete : content.lines = shown → Ending content path shown []
  | tooLong (details : ToolOutputDetails) {long : Text} {after : List Text} :
      content.lines = shown ++ long :: after → OUTPUT_BYTE_LIMIT < long.size →
      Ending content path shown [tooLongPage path (shown.length + 1) long details]

/-- The pages from the line after `before` on, by the ranges of lines that they show, and what they
end with. -/
structure PagedFrom (content : Text) (path : String) (before rest : List Text) (pages : List Page)
    (ranges : List LineRange) (ending : List Page) : Prop where
  shows : List.Forall₂ (Page.Shows content) pages ranges
  ends : Ending content path (before ++ fittingLines rest) ending
  lines : ranges.flatMap (·.of content.lines) = fittingLines rest
  numbers : ranges.flatMap (·.numbers)
    = List.range' (before.length + 1) (fittingLines rest).length
  sorted : ((pages ++ ending).map (·.offset)).Pairwise (· < ·)
  later : ∀ page ∈ pages ++ ending, before.length < page.offset

namespace PagedFrom

variable {before shown left : List Text} {pages ending : List Page} {ranges : List LineRange}

theorem tooLong {long : Text} {after : List Text} (hlines : content.lines = before ++ long :: after)
    (hlong : OUTPUT_BYTE_LIMIT < long.size) (details : ToolOutputDetails) :
    PagedFrom content path before (long :: after) [] []
      [tooLongPage path (before.length + 1) long details] where
  shows := .nil
  ends := by
    rw [fittingLines_of_long hlong, List.append_nil]
    exact .tooLong details hlines hlong
  lines := (fittingLines_of_long hlong after).symm
  numbers := by
    rw [fittingLines_of_long hlong]
    rfl
  sorted := List.pairwise_singleton _ _
  later := by simp [tooLongPage]

theorem complete (hlines : content.lines = before) :
    PagedFrom content path before [] [] [] [] where
  shows := .nil
  ends := .complete (by simpa [fittingLines] using hlines)
  lines := rfl
  numbers := rfl
  sorted := .nil
  later := by simp

/-- **One page more**, in front. -/
theorem cons (h : PagedFrom content path (before ++ shown) left pages ranges ending)
    (hlines : content.lines = before ++ (shown ++ left))
    (hsizes : ∀ line ∈ shown, line.size ≤ OUTPUT_BYTE_LIMIT) (hne : shown ≠ []) {page : Page}
    (hpage : page.Shows content ⟨before.length + 1, before.length + shown.length⟩) :
    PagedFrom content path before (shown ++ left) (page :: pages)
      (⟨before.length + 1, before.length + shown.length⟩ :: ranges) ending where
  shows := .cons hpage h.shows
  ends := by
    rw [fittingLines_append hsizes, ← List.append_assoc]
    exact h.ends
  lines := by
    rw [List.flatMap_cons, h.lines, hlines, LineRange.of_append, fittingLines_append hsizes]
  numbers := by
    have hcount : before.length + shown.length + 1 - (before.length + 1) = shown.length := by omega
    rw [List.flatMap_cons, h.numbers, LineRange.numbers, hcount, fittingLines_append hsizes,
      List.length_append, List.length_append, Nat.add_right_comm, List.range'_append_1]
  sorted := by
    have hoffset : page.offset = before.length + 1 := hpage.offset
    refine List.pairwise_cons.mpr ⟨fun offset hmem => ?_, h.sorted⟩
    obtain ⟨next, hnext, rfl⟩ := List.mem_map.mp hmem
    have hlater := h.later next hnext
    have hpos := List.length_pos_iff.mpr hne
    rw [List.length_append] at hlater
    exact hoffset.trans_lt (by omega)
  later next hnext := by
    rcases List.mem_cons.mp hnext with rfl | hnext
    · exact hpage.offset ▸ Nat.lt_succ_self _
    · have hlater := h.later next hnext
      rw [List.length_append] at hlater
      omega

end PagedFrom

theorem paging_last {calls offset : Nat} {page : TextResult}
    (h : Read.buildResult content (some (offset : Int)) path limit = .ok page)
    (hcontinue : continueAt page = none) :
    paging content path limit (calls + 1) offset = some [⟨offset, .ok page⟩] := by
  simp only [paging, h, hcontinue]

theorem paging_next {calls offset next : Nat} {page : TextResult} {pages : List Page}
    (h : Read.buildResult content (some (offset : Int)) path limit = .ok page)
    (hcontinue : continueAt page = some next)
    (hrest : paging content path limit calls next = some pages) :
    paging content path limit (calls + 1) offset = some (⟨offset, .ok page⟩ :: pages) := by
  simp only [paging, h, hcontinue, hrest, Option.map_some]

/-- **The rest of a paging**, by the lines that are left. -/
theorem paging_from (hlimit : 1 ≤ limit) (path : String) {before rest : List Text}
    (hlines : content.lines = before ++ rest) (hrest : rest ≠ []) :
    ∃ pages ranges ending, PagedFrom content path before rest pages ranges ending ∧
      ∀ calls, rest.length ≤ calls →
        paging content path limit calls (before.length + 1) = some (pages ++ ending) := by
  induction hn : rest.length using Nat.strong_induction_on generalizing before rest with
  | _ n ih =>
    subst hn
    have hcalls : ∀ calls, rest.length ≤ calls → ∃ more, calls = more + 1 := fun calls hle =>
      Nat.exists_eq_succ_of_ne_zero (Nat.ne_of_gt ((List.length_pos_iff.mpr hrest).trans_le hle))
    rcases page_cases hlimit path hlines hrest with
      ⟨long, after, details, rfl, hlong, hedge, hresult⟩ |
      ⟨shown, left, page, rfl, hne, hsizes, hresult, hshows, hcontinue⟩
    · refine ⟨_, _, _, .tooLong hlines hlong details, fun calls hle => ?_⟩
      obtain ⟨more, rfl⟩ := hcalls calls hle
      exact paging_last hresult (if_pos hedge)
    · by_cases hleft : left = []
      · subst hleft
        have hall : content.lines = before ++ shown := by rw [hlines, List.append_nil]
        have hdone : PagedFrom content path (before ++ shown) [] [] [] [] := .complete hall
        have hfrom := hdone.cons hlines hsizes hne hshows
        refine ⟨_, _, _, hfrom, fun calls hle => ?_⟩
        obtain ⟨more, rfl⟩ := hcalls calls hle
        exact paging_last hresult hcontinue
      · have hshorter : left.length < (shown ++ left).length := by
          have := List.length_pos_iff.mpr hne
          rw [List.length_append]
          omega
        obtain ⟨pages, ranges, ending, hfrom, hpaging⟩ :=
          ih left.length hshorter ((List.append_assoc _ _ _).symm ▸ hlines) hleft rfl
        refine ⟨_, _, _, hfrom.cons hlines hsizes hne hshows, fun calls hle => ?_⟩
        obtain ⟨more, rfl⟩ := hcalls calls hle
        rw [List.length_append] at hpaging
        exact paging_next hresult (hcontinue.trans (if_neg hleft)) (hpaging more (by omega))

theorem fittingLines_eq_self {lines : List Text}
    (h : ∀ line ∈ lines, line.size ≤ OUTPUT_BYTE_LIMIT) : fittingLines lines = lines :=
  List.takeWhile_eq_self_iff.mpr fun line hline => decide_eq_true (h line hline)

theorem answered_of_shows {pages : List Page} {ranges : List LineRange}
    (h : List.Forall₂ (Page.Shows content) pages ranges) :
    ∀ page ∈ pages, page.offset ≤ content.lines.length ∧ ∃ result, page.answer = .ok result := by
  induction h with
  | nil => simp
  | cons hpage _ ih =>
    refine List.forall_mem_cons.mpr ⟨⟨hpage.offset ▸ hpage.start_le.trans hpage.stop_le, ?_⟩, ih⟩
    rcases hpage.answer with ⟨-, hanswer⟩ | ⟨-, _, _, hanswer⟩
    · exact ⟨_, hanswer⟩
    · exact ⟨_, hanswer⟩

theorem Ending.answered {shown : List Text} {ending : List Page}
    (h : Ending content path shown ending) :
    ∀ page ∈ ending, page.offset ≤ content.lines.length ∧ ∃ result, page.answer = .ok result := by
  cases h with
  | complete => simp
  | tooLong details hlines =>
    rintro page hpage
    obtain rfl := List.mem_singleton.mp hpage
    exact ⟨by simp [tooLongPage, hlines], _, rfl⟩

end Paging

/-- **Paging through a file reconstructs it.**  The calls that follow the notices from the first
line on come to an end, at growing offsets inside the file.  Their pages show the ranges of lines
that their notices name, and these are all lines of the file, or all before the first one that is
too long, which the last page names. -/
theorem paging_reconstructs (content : Text) (path : String) {limit : Nat} (hlimit : 1 ≤ limit) :
    ∃ pages ranges ending,
      (∀ calls, content.lines.length ≤ calls →
        paging content path limit calls 1 = some (pages ++ ending)) ∧
      List.Forall₂ (Page.Shows content) pages ranges ∧
      ((pages ++ ending).map (·.offset)).Pairwise (· < ·) ∧
      (∀ page ∈ pages ++ ending, page.offset ≤ content.lines.length ∧
        ∃ result, page.answer = .ok result) ∧
      ((∀ line ∈ content.lines, line.size ≤ OUTPUT_BYTE_LIMIT) →
        ending = [] ∧ ranges.flatMap (·.of content.lines) = content.lines ∧
        ranges.flatMap (·.numbers) = List.range' 1 content.lines.length) ∧
      ∀ before long after, content.lines = before ++ long :: after →
        (∀ line ∈ before, line.size ≤ OUTPUT_BYTE_LIMIT) → OUTPUT_BYTE_LIMIT < long.size →
        (∃ details, ending = [tooLongPage path (before.length + 1) long details]) ∧
        ranges.flatMap (·.of content.lines) = before ∧
        ranges.flatMap (·.numbers) = List.range' 1 before.length := by
  obtain ⟨pages, ranges, ending, hfrom, hpaging⟩ :=
    paging_from hlimit path (List.nil_append content.lines).symm content.lines_ne_nil
  have hends : Ending content path (fittingLines content.lines) ending := hfrom.ends
  refine ⟨pages, ranges, ending, hpaging, hfrom.shows, hfrom.sorted, fun page hpage => ?_,
    fun hfit => ?_, fun before long after hlines hbefore hlong => ?_⟩
  · rcases List.mem_append.mp hpage with hpage | hpage
    · exact answered_of_shows hfrom.shows page hpage
    · exact hends.answered page hpage
  · have hall := fittingLines_eq_self hfit
    refine ⟨?_, hfrom.lines.trans hall, hfrom.numbers.trans (by rw [hall, List.length_nil])⟩
    rw [hall] at hends
    cases hends with
    | complete => rfl
    | tooLong _ hlines => simp at hlines
  · have hall : fittingLines content.lines = before := by
      rw [hlines, fittingLines_append hbefore, fittingLines_of_long hlong, List.append_nil]
    refine ⟨?_, hfrom.lines.trans hall, hfrom.numbers.trans (by rw [hall, List.length_nil])⟩
    rw [hall] at hends
    cases hends with
    | complete hall => simp [hlines] at hall
    | tooLong details hlines' =>
      rw [hlines] at hlines'
      obtain ⟨rfl, -⟩ := List.cons.inj (List.append_cancel_left hlines')
      exact ⟨details, rfl⟩

/-- Three lines, two on a page. -/
theorem paging_reconstructs_twoPages :
    ∃ pages ranges, paging "one\ntwo\nthree".toList "notes.txt" 2 3 1 = some pages ∧
      List.Forall₂ (Page.Shows "one\ntwo\nthree".toList) pages ranges ∧
      ranges.flatMap (·.of (Text.lines "one\ntwo\nthree".toList))
        = ["one".toList, "two".toList, "three".toList] := by
  obtain ⟨pages, ranges, ending, hpaging, hshows, -, -, hfit, -⟩ :=
    paging_reconstructs "one\ntwo\nthree".toList "notes.txt" (by decide : 1 ≤ 2)
  obtain ⟨rfl, hlines, -⟩ := hfit (by decide +kernel)
  refine ⟨pages, ranges, ?_, hshows, hlines.trans (by decide +kernel)⟩
  rw [hpaging 3 (by decide +kernel), List.append_nil]

end Tile
