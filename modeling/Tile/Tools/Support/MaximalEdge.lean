import Mathlib.Data.Set.Operations
import Mathlib.Order.Bounds.Defs
import Tile.Tools.Support.Truncation

/-!
# Tools/Support/MaximalEdge — a truncation as the most lines that fit

Lines are counted from the retained edge: of all counts that fit both limits, **a truncation keeps
the greatest** (`truncateText_eq`), and every field of it is read off that count.
-/

namespace Tile

/-- The first or the last `k` lines. -/
def edgeLines (lines : List Text) (keep : TruncationKeep) (k : Nat) : List Text :=
  match keep with
  | .head => lines.take k
  | .tail => lines.drop (lines.length - k)

/-- How many lines at the edge fit both limits. -/
def fittingCounts (lines : List Text) (keep : TruncationKeep) (maxLines maxBytes : Nat) : Set Nat :=
  {k | k ≤ min lines.length maxLines ∧
    (Text.joinLines (edgeLines lines keep k)).size ≤ maxBytes}

/-- The truncation that keeps `k` lines at the edge. -/
def keptEdge (text : Text) (keep : TruncationKeep) (maxLines maxBytes k : Nat) : Truncation where
  content := Text.joinLines (edgeLines text.lines keep k)
  truncated := k < text.lines.length
  truncatedBy :=
    if k = text.lines.length then none else if k = maxLines then some .lines else some .bytes
  keep
  totalLines := text.lines.length
  totalBytes := text.size
  outputLines := k
  outputBytes := (Text.joinLines (edgeLines text.lines keep k)).size
  edgeLineExceedsLimit := k = 0
  maxLines
  maxBytes

section Counts

variable {lines : List Text} {keep : TruncationKeep} {maxLines maxBytes : Nat}

theorem edgeLines_eq (lines : List Text) (keep : TruncationKeep) (k : Nat) :
    edgeLines lines keep k = iterLines ((iterLines lines keep).take k) keep := by
  cases keep with
  | head => rfl
  | tail =>
    simp only [edgeLines, iterLines]
    rw [List.take_reverse, List.reverse_reverse]

theorem mem_fittingCounts_iff {k : Nat} (hk : k ≤ lines.length) :
    k ∈ fittingCounts lines keep maxLines maxBytes ↔
      Fits maxLines maxBytes ((iterLines lines keep).take k) := by
  have hlength : ((iterLines lines keep).take k).length = k :=
    List.length_take_of_le (by simpa using hk)
  rw [fittingCounts, Set.mem_ofPred_eq, Fits, hlength, edgeLines_eq, Nat.le_min]
  by_cases hzero : k = 0
  · subst hzero
    cases keep <;> simp [iterLines, Text.joinLines, Text.cost]
  · have hne : (iterLines lines keep).take k ≠ [] := by
      rw [ne_eq, ← List.length_eq_zero_iff, hlength]
      exact hzero
    have hcost : Text.cost (iterLines ((iterLines lines keep).take k) keep)
        = Text.cost ((iterLines lines keep).take k) := by
      cases keep with
      | head => rfl
      | tail => exact Text.cost_reverse _
    have hsize := Text.size_joinLines (iterLines_ne_nil hne keep)
    omega

theorem edgeLines_of_longest {shown : List Text}
    (h : LongestPrefix (Fits maxLines maxBytes) (iterLines lines keep) shown) :
    edgeLines lines keep shown.length = iterLines shown keep := by
  rw [edgeLines_eq, ← List.prefix_iff_eq_take.mp h.isPrefix]

/-- Fewer lines fit as well. -/
theorem mem_fittingCounts_of_le {j k : Nat}
    (h : IsGreatest (fittingCounts lines keep maxLines maxBytes) k) (hj : j ≤ k) :
    j ∈ fittingCounts lines keep maxLines maxBytes := by
  have hk : k ≤ lines.length := (Nat.le_min.mp h.1.1).1
  obtain ⟨rest, hrest⟩ := List.take_prefix_take_left (l := iterLines lines keep) hj
  refine (mem_fittingCounts_iff (hj.trans hk)).mpr (prefixClosed_fits _ rest ?_)
  rw [hrest]
  exact (mem_fittingCounts_iff hk).mp h.1

/-- The longest run of lines that fits has the greatest count. -/
theorem isGreatest_of_longest {shown : List Text}
    (h : LongestPrefix (Fits maxLines maxBytes) (iterLines lines keep) shown) :
    IsGreatest (fittingCounts lines keep maxLines maxBytes) shown.length := by
  have hshown : shown = (iterLines lines keep).take shown.length :=
    List.prefix_iff_eq_take.mp h.isPrefix
  have hle : shown.length ≤ lines.length := by simpa using h.isPrefix.length_le
  refine ⟨(mem_fittingCounts_iff hle).mpr (hshown ▸ h.holds), fun k hk => ?_⟩
  have hkLines : k ≤ lines.length := (Nat.le_min.mp hk.1).1
  by_contra hlt
  have hnext : (iterLines lines keep).take (shown.length + 1)
      = shown ++ [(iterLines lines keep).get ⟨shown.length, by simp; omega⟩] := by
    rw [List.take_add_one, ← hshown, List.getElem?_eq_getElem (by simp; omega)]
    rfl
  have hfits := (mem_fittingCounts_iff hkLines).mp hk
  obtain ⟨rest, hrest⟩ := (List.take_prefix_take_left (l := iterLines lines keep)
    (show shown.length + 1 ≤ k by omega))
  rw [← hrest] at hfits
  exact h.stops _ (hnext ▸ List.take_prefix _ _) (hnext ▸ prefixClosed_fits _ _ hfits)

/-- The loop stops for the lines when it has taken as many as it may, or all. -/
theorem selectLoop_reason {outputLines : List Text} {outputBytes : Nat} :
    (selectLoop maxLines maxBytes lines outputLines outputBytes).2 = .lines ↔
      maxLines ≤ (selectLoop maxLines maxBytes lines outputLines outputBytes).1.length ∨
      (selectLoop maxLines maxBytes lines outputLines outputBytes).1 = outputLines ++ lines := by
  induction lines generalizing outputLines outputBytes with
  | nil => simp [selectLoop]
  | cons line rest ih =>
    rw [selectLoop]
    split
    next hlines => exact iff_of_true rfl (.inl hlines)
    next hlines =>
      dsimp only
      by_cases hover : outputBytes + (if outputLines = [] then 0 else 1) + line.size > maxBytes
      · rw [if_pos hover]
        simpa using hlines
      · rw [if_neg hover, ih, List.append_cons outputLines line rest]

end Counts

section Truncate

variable {maxLines maxBytes : Nat} {text : Text} {keep : TruncationKeep}

theorem truncatedBy_of_fits (hfits : Fits maxLines maxBytes text.lines) :
    (truncateText text keep maxLines maxBytes).truncatedBy = none := by
  rw [truncateText, if_pos (fitsLimits_iff.mpr hfits)]
  rfl

/-- What limit stopped a truncation that shows these lines and not all. -/
theorem truncatedBy_of_shows (hlines : 1 ≤ maxLines) {shown : List Text}
    (hlongest : LongestPrefix (Fits maxLines maxBytes) (iterLines text.lines keep) shown)
    (hfits : ¬ Fits maxLines maxBytes text.lines) :
    (truncateText text keep maxLines maxBytes).truncatedBy
      = if shown.length = maxLines then some .lines else some .bytes := by
  rw [truncateText, if_neg fun h => hfits (fitsLimits_iff.mp h)]
  have hedge := longest_eq_nil_iff hlines text.lines_ne_nil hlongest
  split
  next hexceeds =>
    rw [hedge.mpr hexceeds, if_neg (by simp; omega)]
    rfl
  next hexceeds =>
    have hloop : LongestPrefix (Fits maxLines maxBytes) ([] ++ iterLines text.lines keep)
        (selectLoop maxLines maxBytes (iterLines text.lines keep) [] 0).1 :=
      selectLoop_longest rfl ⟨Nat.zero_le _, Nat.zero_le _⟩
    rw [List.nil_append] at hloop
    have hshown := hlongest.unique prefixClosed_fits hloop
    have hreason : (selectLoop maxLines maxBytes (iterLines text.lines keep) [] 0).2 = .lines ↔ _ :=
      selectLoop_reason
    rw [← hshown, List.nil_append] at hreason
    have hall : shown ≠ iterLines text.lines keep := by
      rintro rfl
      exact hfits (fits_iterLines.mp hlongest.holds)
    have hle := hlongest.holds.1
    change some (selectLoop maxLines maxBytes (iterLines text.lines keep) [] 0).2 = _
    cases hkind : (selectLoop maxLines maxBytes (iterLines text.lines keep) [] 0).2 with
    | lines =>
      have := (hreason.mp hkind).resolve_right hall
      rw [if_pos (by omega)]
    | bytes =>
      have hnot : ¬ maxLines ≤ shown.length := fun h => by
        cases hkind.symm.trans (hreason.mpr (.inl h))
      rw [if_neg (by omega)]

end Truncate

/-- Every field of a truncation is read off the number of lines it shows. -/
theorem truncateText_of_longest {text : Text} {keep : TruncationKeep} {maxLines maxBytes : Nat}
    (hlines : 1 ≤ maxLines) {shown : List Text}
    (hlongest : LongestPrefix (Fits maxLines maxBytes) (iterLines text.lines keep) shown) :
    truncateText text keep maxLines maxBytes
      = keptEdge text keep maxLines maxBytes shown.length := by
  obtain ⟨shown', hlongest', hshows⟩ := truncateText_shows hlines maxBytes text keep
  obtain rfl := hlongest.unique prefixClosed_fits hlongest'
  have hall : shown.length = text.lines.length ↔ Fits maxLines maxBytes text.lines := by
    constructor
    · intro hlength
      have hshown : shown = iterLines text.lines keep :=
        hlongest.isPrefix.eq_of_length (by simpa using hlength)
      exact fits_iterLines.mp (hshown ▸ hlongest.holds)
    · intro hfits
      rw [hlongest.eq_of_holds prefixClosed_fits (fits_iterLines.mpr hfits), length_iterLines]
  have hle : shown.length ≤ text.lines.length := by simpa using hlongest.isPrefix.length_le
  have hcontent := hshows.content
  have htruncated := hshows.truncated
  rw [truncateText_keep, ← edgeLines_of_longest hlongest] at hcontent
  rw [truncateText_maxLines, truncateText_maxBytes] at htruncated
  ext1
  case content => exact hcontent
  case truncated =>
    rw [keptEdge, Bool.eq_iff_iff, htruncated, decide_eq_true_iff, ← hall]
    omega
  case truncatedBy =>
    by_cases hfits : Fits maxLines maxBytes text.lines
    · rw [truncatedBy_of_fits hfits, keptEdge, if_pos (hall.mpr hfits)]
    · rw [truncatedBy_of_shows hlines hlongest hfits, keptEdge, if_neg fun h => hfits (hall.mp h)]
  case keep => exact truncateText_keep ..
  case totalLines => exact hshows.totalLines
  case totalBytes => exact hshows.totalBytes
  case outputLines => exact hshows.outputLines
  case outputBytes => rw [hshows.outputBytes, hcontent, keptEdge]
  case edgeLineExceedsLimit =>
    rw [keptEdge, Bool.eq_iff_iff, hshows.edgeLineExceedsLimit, decide_eq_true_iff,
      List.length_eq_zero_iff]
  case maxLines => exact truncateText_maxLines ..
  case maxBytes => exact truncateText_maxBytes ..

/-- **A truncation keeps as many whole lines at the edge as fit both limits.** -/
theorem truncateText_eq (text : Text) (keep : TruncationKeep) (maxLines maxBytes : Nat)
    (hlines : 1 ≤ maxLines) :
    ∃ k, IsGreatest (fittingCounts text.lines keep maxLines maxBytes) k ∧
      truncateText text keep maxLines maxBytes = keptEdge text keep maxLines maxBytes k ∧
      (truncateText text keep maxLines maxBytes).outputBytes ≤ maxBytes := by
  obtain ⟨shown, hlongest, -⟩ := truncateText_shows hlines maxBytes text keep
  have hgreatest := isGreatest_of_longest hlongest
  have heq := truncateText_of_longest hlines hlongest
  exact ⟨shown.length, hgreatest, heq, heq ▸ hgreatest.1.2⟩

/-- Both limits bind, and the text ends with a newline. -/
theorem truncateText_eq_lines :
    ∃ k, IsGreatest (fittingCounts (Text.lines "aé\nb\n\nc\n".toList) .tail 3 3) k ∧
      truncateText "aé\nb\n\nc\n".toList .tail 3 3 = keptEdge "aé\nb\n\nc\n".toList .tail 3 3 k ∧
      (truncateText "aé\nb\n\nc\n".toList .tail 3 3).outputBytes ≤ 3 :=
  truncateText_eq "aé\nb\n\nc\n".toList .tail 3 3 (by decide)

end Tile
