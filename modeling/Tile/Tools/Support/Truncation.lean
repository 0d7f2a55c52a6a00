import Tile.Library.LongestPrefix
import Tile.Text.Scalars

/-!
# Tools/Support/Truncation — one edge of a text, within a line and a byte limit

Whole lines are kept from the head or from the tail, as many as fit both limits.  What a truncation
says of itself follows from the lines it shows: the longest run of lines, from the edge on, that
fits (`truncateText_shows`).
-/

namespace Tile

/-- Maximum lines to keep before appending a truncation notice. -/
def OUTPUT_LINE_LIMIT : Nat := 2000
/-- Maximum UTF-8 bytes to keep before appending a truncation notice. -/
def OUTPUT_BYTE_LIMIT : Nat := 50 * 1024
/-- Human-readable label for the shared output byte limit. -/
def OUTPUT_BYTE_LIMIT_LABEL : String := "50.0KB"

/-- Which limit cut the text. -/
inductive TruncationReason where
  | lines | bytes
  deriving Repr, DecidableEq

/-- Which end of the text is kept. -/
inductive TruncationKeep where
  | head | tail
  deriving Repr, DecidableEq

/-- Metadata returned when keeping one edge of tool output. -/
@[ext] structure Truncation where
  content : Text
  truncated : Bool
  truncatedBy : Option TruncationReason
  keep : TruncationKeep
  totalLines : Nat
  totalBytes : Nat
  outputLines : Nat
  outputBytes : Nat
  edgeLineExceedsLimit : Bool
  maxLines : Nat
  maxBytes : Nat
  deriving Repr, DecidableEq

/-- Structured metadata describing bounded tool output. -/
structure ToolOutputDetails where
  truncated : Bool
  truncatedBy : Option TruncationReason
  keep : TruncationKeep
  totalLines : Nat
  totalBytes : Nat
  outputLines : Nat
  outputBytes : Nat
  edgeLineExceedsLimit : Bool
  maxLines : Nat
  maxBytes : Nat
  deriving Repr, DecidableEq

/-- Create output details from matching truncation metadata. -/
def ToolOutputDetails.fromTruncation (truncation : Truncation) : ToolOutputDetails :=
  { truncation with }

/-- A text result of a tool, and the details of its output. -/
structure TextResult where
  text : Text
  details : Option ToolOutputDetails := none
  deriving Repr, DecidableEq

namespace Text

/-- `text.split("\n")`. -/
def lines (text : Text) : List Text := text.splitOn '\n'

/-- `"\n".join(lines)`. -/
def joinLines (lines : List Text) : Text := ['\n'].intercalate lines

end Text

/-- Append model-visible notices in the standard bracketed block format. -/
def appendNoticeBlock (text : Text) (notices : List String) : Text :=
  if notices = [] then text
  else
    let joined := ". ".intercalate notices
    text ++ s!"\n\n[{joined}]".toList

/-- A quotient with one decimal, as Python prints a `float`: the nearest one, and of two the even
one. -/
def oneDecimal (n d : Nat) : String :=
  let quotient := 10 * n / d
  let rest := 10 * n % d
  let tenths := if d < 2 * rest ∨ 2 * rest = d ∧ quotient % 2 = 1 then quotient + 1 else quotient
  s!"{tenths / 10}.{tenths % 10}"

/-- Format a byte count with compact binary units.  (Up to `2 ^ 53` bytes the division of the source
is exact, as it is here.) -/
def formatSize (byteCount : Nat) : String :=
  if byteCount < 1024 then s!"{byteCount}B"
  else if byteCount < 1024 * 1024 then s!"{oneDecimal byteCount 1024}KB"
  else s!"{oneDecimal byteCount (1024 * 1024)}MB"

/-! ## Truncating -/

/-- Line and byte measurements for text being truncated. -/
structure TextMeasurements where
  lines : List Text
  totalLines : Nat
  totalBytes : Nat

/-- Measure text once for truncation decisions and metadata. -/
def measureText (text : Text) : TextMeasurements where
  lines := text.lines
  totalLines := text.lines.length
  totalBytes := text.size

/-- Whether text fits within both output limits. -/
def fitsLimits (measurements : TextMeasurements) (maxLines maxBytes : Nat) : Bool :=
  measurements.totalLines ≤ maxLines && measurements.totalBytes ≤ maxBytes

/-- Iterate lines from the retained edge. -/
def iterLines (lines : List Text) : TruncationKeep → List Text
  | .head => lines
  | .tail => lines.reverse

/-- The line at the retained edge; a text has one. -/
def edgeLine (lines : List Text) : TruncationKeep → Text
  | .head => lines.headD []
  | .tail => lines.getLastD []

/-- Whether the retained edge line alone exceeds the byte limit. -/
def edgeLineExceedsLimit (lines : List Text) (keep : TruncationKeep) (maxBytes : Nat) : Bool :=
  (edgeLine lines keep).size > maxBytes

/-- The loop over the lines, from the retained edge. -/
def selectLoop (maxLines maxBytes : Nat) :
    List Text → (outputLines : List Text) → (outputBytes : Nat) → List Text × TruncationReason
  | [], outputLines, _ => (outputLines, .lines)
  | line :: rest, outputLines, outputBytes =>
    if outputLines.length ≥ maxLines then (outputLines, .lines)
    else
      let separatorBytes := if outputLines = [] then 0 else 1
      if outputBytes + separatorBytes + line.size > maxBytes then (outputLines, .bytes)
      else
        selectLoop maxLines maxBytes rest (outputLines ++ [line])
          (outputBytes + (separatorBytes + line.size))

/-- Return selected output lines and the boundary that stopped selection. -/
def selectOutputLines (lines : List Text) (keep : TruncationKeep) (maxLines maxBytes : Nat) :
    List Text × TruncationReason :=
  let (outputLines, truncatedBy) := selectLoop maxLines maxBytes (iterLines lines keep) [] 0
  (iterLines outputLines keep, truncatedBy)

/-- Build truncation metadata for text that already fits. -/
def untruncatedResult (text : Text) (measurements : TextMeasurements) (keep : TruncationKeep)
    (maxLines maxBytes : Nat) : Truncation where
  content := text
  truncated := false
  truncatedBy := none
  keep
  totalLines := measurements.totalLines
  totalBytes := measurements.totalBytes
  outputLines := measurements.totalLines
  outputBytes := measurements.totalBytes
  edgeLineExceedsLimit := false
  maxLines
  maxBytes

/-- Build metadata when no complete retained-edge line can fit. -/
def edgeLineExceededResult (measurements : TextMeasurements) (keep : TruncationKeep)
    (maxLines maxBytes : Nat) : Truncation where
  content := []
  truncated := true
  truncatedBy := some .bytes
  keep
  totalLines := measurements.totalLines
  totalBytes := measurements.totalBytes
  outputLines := 0
  outputBytes := 0
  edgeLineExceedsLimit := true
  maxLines
  maxBytes

/-- Build metadata for retained output lines. -/
def truncatedResult (outputLines : List Text) (truncatedBy : TruncationReason)
    (measurements : TextMeasurements) (keep : TruncationKeep) (maxLines maxBytes : Nat) :
    Truncation where
  content := Text.joinLines outputLines
  truncated := true
  truncatedBy := some truncatedBy
  keep
  totalLines := measurements.totalLines
  totalBytes := measurements.totalBytes
  outputLines := outputLines.length
  outputBytes := (Text.joinLines outputLines).size
  edgeLineExceedsLimit := false
  maxLines
  maxBytes

/-- Return one edge of text constrained by line and byte limits. -/
def truncateText (text : Text) (keep : TruncationKeep) (maxLines maxBytes : Nat) : Truncation :=
  let measurements := measureText text
  if fitsLimits measurements maxLines maxBytes then
    untruncatedResult text measurements keep maxLines maxBytes
  else if Tile.edgeLineExceedsLimit measurements.lines keep maxBytes then
    edgeLineExceededResult measurements keep maxLines maxBytes
  else
    let (outputLines, truncatedBy) :=
      selectOutputLines measurements.lines keep maxLines maxBytes
    truncatedResult outputLines truncatedBy measurements keep maxLines maxBytes

/-- Leading complete lines constrained by line and byte limits. -/
def truncateHead (text : Text) (maxLines maxBytes : Nat) : Truncation :=
  truncateText text .head maxLines maxBytes

/-- Trailing complete lines constrained by line and byte limits. -/
def truncateTail (text : Text) (maxLines maxBytes : Nat) : Truncation :=
  truncateText text .tail maxLines maxBytes

section Fields

variable (text : Text) (keep : TruncationKeep) (maxLines maxBytes : Nat)

@[simp] theorem truncateText_keep : (truncateText text keep maxLines maxBytes).keep = keep := by
  rw [truncateText]
  split
  · rfl
  · split <;> rfl

@[simp] theorem truncateText_maxLines :
    (truncateText text keep maxLines maxBytes).maxLines = maxLines := by
  rw [truncateText]
  split
  · rfl
  · split <;> rfl

@[simp] theorem truncateText_maxBytes :
    (truncateText text keep maxLines maxBytes).maxBytes = maxBytes := by
  rw [truncateText]
  split
  · rfl
  · split <;> rfl

@[simp] theorem truncateText_totalLines :
    (truncateText text keep maxLines maxBytes).totalLines = text.lines.length := by
  rw [truncateText]
  split
  · rfl
  · split <;> rfl

end Fields

/-! ## Lines -/

namespace Text

theorem lines_ne_nil (text : Text) : text.lines ≠ [] := List.splitOn_ne_nil _ _

@[simp] theorem joinLines_lines (text : Text) : joinLines text.lines = text :=
  List.intercalate_splitOn _

/-- **A text cut at a newline.** -/
theorem lines_append (text text' : Text) :
    (text ++ '\n' :: text').lines = text.lines ++ text'.lines :=
  List.splitOn_append_cons_self _ _

theorem lines_of_not_mem {text : Text} (h : '\n' ∉ text) : text.lines = [text] :=
  List.splitOn_eq_singleton h

theorem not_mem_of_mem_lines {text line : Text} (h : line ∈ text.lines) : '\n' ∉ line := by
  induction text generalizing line with
  | nil =>
    obtain rfl : line = [] := by simpa [lines] using h
    simp
  | cons c text ih =>
    obtain ⟨first, rest, hlines⟩ := List.exists_cons_of_ne_nil (lines_ne_nil text)
    rw [lines, List.splitOn_cons_eq_if_modifyHead, ← lines, hlines] at h
    split at h
    · rcases List.mem_cons.mp h with rfl | h
      · exact List.not_mem_nil
      · exact ih (hlines ▸ h)
    next hc =>
      rcases List.mem_cons.mp h with rfl | h
      · have hfirst : '\n' ∉ first := ih (hlines ▸ List.mem_cons_self)
        have hne : '\n' ≠ c := fun heq => hc (beq_iff_eq.mpr heq.symm)
        simp [hfirst, hne]
      · exact ih (hlines ▸ List.mem_cons_of_mem _ h)

/-- Text without a newline goes to the last line. -/
theorem lines_append_of_not_mem (text : Text) {tail : Text} (h : '\n' ∉ tail) :
    ∃ init last, text.lines = init ++ [last] ∧ (text ++ tail).lines = init ++ [last ++ tail] := by
  induction text with
  | nil => exact ⟨[], [], rfl, lines_of_not_mem h⟩
  | cons c text ih =>
    obtain ⟨init, last, hlines, happend⟩ := ih
    simp only [lines, List.cons_append, List.splitOn_cons_eq_if_modifyHead] at *
    rw [hlines, happend]
    split
    · exact ⟨[] :: init, last, rfl, rfl⟩
    · cases init with
      | nil => exact ⟨[], c :: last, rfl, rfl⟩
      | cons first init => exact ⟨(c :: first) :: init, last, rfl, rfl⟩

theorem lines_joinLines {lines : List Text} (hne : lines ≠ []) (h : ∀ line ∈ lines, '\n' ∉ line) :
    (joinLines lines).lines = lines :=
  List.splitOn_intercalate _ h hne

/-- The bytes of some lines, each with its newline. -/
def cost : List Text → Nat
  | [] => 0
  | line :: lines => line.size + 1 + cost lines

@[simp] theorem cost_append (lines lines' : List Text) :
    cost (lines ++ lines') = cost lines + cost lines' := by
  induction lines with
  | nil => simp [cost]
  | cons line lines ih => simp [cost, ih, Nat.add_assoc]

@[simp] theorem cost_reverse (lines : List Text) : cost lines.reverse = cost lines := by
  induction lines with
  | nil => rfl
  | cons line lines ih => simp [cost, ih, Nat.add_comm]

/-- The last line of a joined text has no newline of its own. -/
theorem size_joinLines {lines : List Text} (h : lines ≠ []) :
    (joinLines lines).size + 1 = cost lines := by
  induction lines with
  | nil => exact absurd rfl h
  | cons line lines ih =>
    cases lines with
    | nil => simp [joinLines, cost]
    | cons next lines =>
      have hrest := ih (List.cons_ne_nil _ _)
      rw [joinLines, List.intercalate_cons_cons, size_append, size_append, cost, ← hrest]
      simp only [joinLines, size_lf_cons, size_nil]
      omega

theorem size_eq (text : Text) : text.size + 1 = cost text.lines := by
  rw [← size_joinLines text.lines_ne_nil, joinLines_lines]

end Text

/-! ## What a truncation shows -/

/-- The lines fit both limits. -/
def Fits (maxLines maxBytes : Nat) (lines : List Text) : Prop :=
  lines.length ≤ maxLines ∧ Text.cost lines ≤ maxBytes + 1

instance (maxLines maxBytes : Nat) (lines : List Text) : Decidable (Fits maxLines maxBytes lines) :=
  inferInstanceAs (Decidable (_ ∧ _))

section Select

variable {maxLines maxBytes : Nat}

theorem prefixClosed_fits : PrefixClosed (Fits maxLines maxBytes) := by
  intro lines rest hfits
  rw [Fits, List.length_append, Text.cost_append] at hfits
  exact ⟨by omega, by omega⟩

theorem fits_reverse {lines : List Text} :
    Fits maxLines maxBytes lines.reverse ↔ Fits maxLines maxBytes lines := by
  simp [Fits]

theorem fits_iterLines {lines : List Text} {keep : TruncationKeep} :
    Fits maxLines maxBytes (iterLines lines keep) ↔ Fits maxLines maxBytes lines := by
  cases keep with
  | head => rfl
  | tail => exact fits_reverse

/-- **The loop takes the longest run of lines that fits.** -/
theorem selectLoop_longest {lines outputLines : List Text} {outputBytes : Nat}
    (hbytes : outputBytes + (if outputLines = [] then 0 else 1) = Text.cost outputLines)
    (hfits : Fits maxLines maxBytes outputLines) :
    LongestPrefix (Fits maxLines maxBytes) (outputLines ++ lines)
      (selectLoop maxLines maxBytes lines outputLines outputBytes).1 := by
  induction lines generalizing outputLines outputBytes with
  | nil =>
    rw [List.append_nil]
    exact .of_holds hfits
  | cons line rest ih =>
    have hcost : Text.cost (outputLines ++ [line]) = Text.cost outputLines + (line.size + 1) := by
      simp [Text.cost]
    rw [selectLoop]
    split
    next hlines =>
      refine .of_next _ hfits fun hnext => ?_
      have hlength := hnext.1
      simp at hlength
      omega
    next hlines =>
      dsimp only
      by_cases hover : outputBytes + (if outputLines = [] then 0 else 1) + line.size > maxBytes
      · rw [if_pos hover]
        refine .of_next _ hfits fun hnext => ?_
        have hnextCost := hnext.2
        omega
      · rw [if_neg hover, List.append_cons]
        refine ih ?_ ⟨?_, by omega⟩
        · have hseparator : (if outputLines ++ [line] = [] then 0 else 1) = 1 := if_neg (by simp)
          omega
        · rw [List.length_append, List.length_singleton]
          omega

theorem selectOutputLines_longest (lines : List Text) (keep : TruncationKeep)
    (maxLines maxBytes : Nat) :
    ∃ shown, LongestPrefix (Fits maxLines maxBytes) (iterLines lines keep) shown ∧
      (selectOutputLines lines keep maxLines maxBytes).1 = iterLines shown keep :=
  ⟨_, @selectLoop_longest _ _ _ [] _ rfl ⟨Nat.zero_le _, Nat.zero_le _⟩, rfl⟩

/-- What a truncation of a text says when it shows these lines, listed from the retained edge. -/
structure Truncation.Shows (truncation : Truncation) (text : Text) (shown : List Text) : Prop where
  content : truncation.content = Text.joinLines (iterLines shown truncation.keep)
  truncated : truncation.truncated = true ↔
    ¬ Fits truncation.maxLines truncation.maxBytes text.lines
  truncatedBy : truncation.truncatedBy = none ↔ truncation.truncated = false
  totalLines : truncation.totalLines = text.lines.length
  totalBytes : truncation.totalBytes = text.size
  outputLines : truncation.outputLines = shown.length
  outputBytes : truncation.outputBytes = truncation.content.size
  edgeLineExceedsLimit : truncation.edgeLineExceedsLimit = true ↔ shown = []

theorem fits_lines_iff {text : Text} :
    Fits maxLines maxBytes text.lines ↔ text.lines.length ≤ maxLines ∧ text.size ≤ maxBytes := by
  rw [Fits, ← text.size_eq, Nat.succ_le_succ_iff]

theorem fitsLimits_iff {text : Text} :
    fitsLimits (measureText text) maxLines maxBytes = true ↔ Fits maxLines maxBytes text.lines := by
  rw [fitsLimits, Bool.and_eq_true, decide_eq_true_iff, decide_eq_true_iff, fits_lines_iff]
  rfl

@[simp] theorem iterLines_iterLines (lines : List Text) (keep : TruncationKeep) :
    iterLines (iterLines lines keep) keep = lines := by
  cases keep with
  | head => rfl
  | tail => exact List.reverse_reverse _

@[simp] theorem length_iterLines (lines : List Text) (keep : TruncationKeep) :
    (iterLines lines keep).length = lines.length := by
  cases keep with
  | head => rfl
  | tail => exact List.length_reverse

theorem iterLines_ne_nil {lines : List Text} (h : lines ≠ []) (keep : TruncationKeep) :
    iterLines lines keep ≠ [] := by
  cases keep with
  | head => exact h
  | tail => simpa [iterLines] using h

theorem edgeLine_eq {lines rest : List Text} {first : Text} {keep : TruncationKeep}
    (h : iterLines lines keep = first :: rest) : edgeLine lines keep = first := by
  cases keep with
  | head =>
    obtain rfl : lines = first :: rest := h
    rfl
  | tail =>
    obtain rfl : lines = rest.reverse ++ [first] := by
      simpa [iterLines] using congrArg List.reverse h
    simp [edgeLine]

/-- Nothing is shown exactly when the edge line alone is too long. -/
theorem longest_eq_nil_iff (hlines : 1 ≤ maxLines) {lines shown : List Text} (hne : lines ≠ [])
    {keep : TruncationKeep}
    (h : LongestPrefix (Fits maxLines maxBytes) (iterLines lines keep) shown) :
    shown = [] ↔ edgeLineExceedsLimit lines keep maxBytes = true := by
  obtain ⟨first, rest, hiter⟩ := List.exists_cons_of_ne_nil (iterLines_ne_nil hne keep)
  rw [edgeLineExceedsLimit, edgeLine_eq hiter, decide_eq_true_iff]
  rw [hiter] at h
  constructor
  · rintro rfl
    by_contra hsmall
    exact h.stops first ⟨rest, rfl⟩ ⟨by simpa using hlines, by simp [Text.cost]; omega⟩
  · intro hlarge
    cases shown with
    | nil => rfl
    | cons line shown =>
      obtain ⟨rfl, -⟩ := List.cons_prefix_cons.mp h.isPrefix
      have hcost := h.holds.2
      rw [Text.cost] at hcost
      omega

/-- **A truncation shows the longest run of lines, from the retained edge on, that fits.** -/
theorem truncateText_shows (hlines : 1 ≤ maxLines) (maxBytes : Nat) (text : Text)
    (keep : TruncationKeep) :
    ∃ shown, LongestPrefix (Fits maxLines maxBytes) (iterLines text.lines keep) shown ∧
      (truncateText text keep maxLines maxBytes).Shows text shown := by
  rw [truncateText]
  split
  next hfits =>
    have hfits := fitsLimits_iff.mp hfits
    exact ⟨_, .of_holds (fits_iterLines.mpr hfits), {
      content := by simp [untruncatedResult]
      truncated := by simp [untruncatedResult, hfits]
      truncatedBy := by simp [untruncatedResult]
      totalLines := rfl
      totalBytes := rfl
      outputLines := by simp [untruncatedResult, measureText]
      outputBytes := rfl
      edgeLineExceedsLimit := by
        simpa [untruncatedResult] using iterLines_ne_nil text.lines_ne_nil keep }⟩
  next hfits =>
    have hfits : ¬ Fits maxLines maxBytes text.lines := fun h => hfits (fitsLimits_iff.mpr h)
    obtain ⟨shown, hlongest, hselect⟩ :=
      selectOutputLines_longest text.lines keep maxLines maxBytes
    have hedge := longest_eq_nil_iff hlines text.lines_ne_nil hlongest
    refine ⟨shown, hlongest, ?_⟩
    split
    next hexceeds =>
      obtain rfl := hedge.mpr hexceeds
      exact {
        content := by cases keep <;> rfl
        truncated := by simpa [edgeLineExceededResult] using hfits
        truncatedBy := by simp [edgeLineExceededResult]
        totalLines := rfl
        totalBytes := rfl
        outputLines := rfl
        outputBytes := rfl
        edgeLineExceedsLimit := by simp [edgeLineExceededResult] }
    next hexceeds =>
      exact {
        content := congrArg Text.joinLines hselect
        truncated := by simpa [truncatedResult] using hfits
        truncatedBy := by simp [truncatedResult]
        totalLines := rfl
        totalBytes := rfl
        outputLines := (congrArg List.length hselect).trans (by simp)
        outputBytes := rfl
        edgeLineExceedsLimit := by
          simpa [truncatedResult] using fun hnil => hexceeds (hedge.mp hnil) }

theorem truncateText_of_fits {text : Text} {keep : TruncationKeep}
    (h : Fits maxLines maxBytes text.lines) :
    truncateText text keep maxLines maxBytes
      = untruncatedResult text (measureText text) keep maxLines maxBytes :=
  if_pos (fitsLimits_iff.mpr h)

/-- A text that fits is not truncated, and no other. -/
theorem truncateText_truncated_iff {text : Text} {keep : TruncationKeep} :
    (truncateText text keep maxLines maxBytes).truncated = false ↔
      Fits maxLines maxBytes text.lines := by
  constructor
  · intro h
    by_contra hfits
    rw [truncateText, if_neg fun hmeasured => hfits (fitsLimits_iff.mp hmeasured)] at h
    split at h <;> cases h
  · intro h
    rw [truncateText_of_fits h]
    rfl

theorem truncateText_nil (hlines : 1 ≤ maxLines) (keep : TruncationKeep) :
    (truncateText [] keep maxLines maxBytes).truncated = false := by
  rw [truncateText, if_pos (fitsLimits_iff.mpr (fits_lines_iff.mpr ⟨hlines, Nat.zero_le _⟩))]
  rfl

theorem size_le_of_fits {lines : List Text} (h : Fits maxLines maxBytes lines) :
    ∀ line ∈ lines, line.size ≤ maxBytes := by
  intro line hline
  obtain ⟨before, after, rfl⟩ := List.append_of_mem hline
  have hcost := h.2
  rw [Text.cost_append, Text.cost] at hcost
  omega

/-- A truncated head is the first lines of the text, unless the very first is too long. -/
theorem truncateHead_cases (hlines : 1 ≤ maxLines) (maxBytes : Nat) (text : Text) :
    (∃ long after, text.lines = long :: after ∧ maxBytes < long.size ∧
      (truncateHead text maxLines maxBytes).truncated = true ∧
      (truncateHead text maxLines maxBytes).edgeLineExceedsLimit = true) ∨
    ∃ shown left, text.lines = shown ++ left ∧ shown ≠ [] ∧
      (∀ line ∈ shown, line.size ≤ maxBytes) ∧
      (truncateHead text maxLines maxBytes).content = Text.joinLines shown ∧
      (truncateHead text maxLines maxBytes).outputLines = shown.length ∧
      (truncateHead text maxLines maxBytes).edgeLineExceedsLimit = false ∧
      ((truncateHead text maxLines maxBytes).truncated = true ↔ left ≠ []) := by
  obtain ⟨shown, hlongest, hshows⟩ := truncateText_shows hlines maxBytes text .head
  have hcontent := hshows.content
  have htruncated := hshows.truncated
  have hedge := hshows.edgeLineExceedsLimit
  rw [truncateText_keep] at hcontent
  rw [truncateText_maxLines, truncateText_maxBytes] at htruncated
  by_cases hnone : shown = []
  · obtain ⟨long, after, hsplit⟩ := List.exists_cons_of_ne_nil text.lines_ne_nil
    have hlong := (longest_eq_nil_iff hlines text.lines_ne_nil hlongest).mp hnone
    rw [edgeLineExceedsLimit, edgeLine, hsplit, decide_eq_true_iff] at hlong
    refine .inl ⟨long, after, hsplit, hlong, htruncated.mpr fun hfits => ?_, hedge.mpr hnone⟩
    have hsize := size_le_of_fits hfits long (hsplit ▸ List.mem_cons_self)
    exact absurd hsize (Nat.not_le_of_lt hlong)
  · obtain ⟨left, hsplit⟩ := hlongest.isPrefix
    refine .inr ⟨shown, left, hsplit.symm, hnone, size_le_of_fits hlongest.holds, hcontent,
      hshows.outputLines, Bool.eq_false_iff.mpr fun h => hnone (hedge.mp h), htruncated.trans ?_⟩
    constructor
    · rintro hfits rfl
      rw [List.append_nil, iterLines] at hsplit
      exact hfits (hsplit ▸ hlongest.holds)
    · intro hleft hfits
      have hall := hlongest.eq_of_holds prefixClosed_fits hfits
      rw [← hall] at hsplit
      exact hleft (List.append_right_eq_self.mp hsplit)

/-- A truncated tail is the last lines of the text. -/
theorem truncateTail_content (hlines : 1 ≤ maxLines) (maxBytes : Nat) (text : Text) :
    (truncateTail text maxLines maxBytes).content = Text.joinLines
      (text.lines.drop (text.lines.length - (truncateTail text maxLines maxBytes).outputLines)) ∧
    (truncateTail text maxLines maxBytes).outputLines ≤ text.lines.length ∧
    ((truncateTail text maxLines maxBytes).edgeLineExceedsLimit = false →
      0 < (truncateTail text maxLines maxBytes).outputLines) := by
  obtain ⟨shown, hlongest, hshows⟩ := truncateText_shows hlines maxBytes text .tail
  have hlength : shown.length ≤ text.lines.length := by
    simpa using hlongest.isPrefix.length_le
  have htake : shown = text.lines.reverse.take shown.length :=
    List.prefix_iff_eq_take.mp hlongest.isPrefix
  refine ⟨?_, hshows.outputLines ▸ hlength, fun hedge => ?_⟩
  · rw [truncateTail, hshows.content, hshows.outputLines, truncateText_keep, iterLines]
    nth_rewrite 1 [htake]
    rw [List.take_reverse, List.reverse_reverse]
  · rw [truncateTail, hshows.outputLines, List.length_pos_iff]
    intro hnil
    rw [truncateTail, hshows.edgeLineExceedsLimit.mpr hnil] at hedge
    cases hedge

end Select

end Tile
