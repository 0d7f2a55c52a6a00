import Tile.Tools.UnifiedDiff

/-!
# Tools/EditDiff — the diff an edit reports

`difflib` is given the lines of `str.splitlines`, which stop at form feeds and Unicode separators
too, and the text it writes is read in lines that stop at newlines.  Of contents whose lines in
front of the last hunk end with newlines, **the diff takes the old one to the new one exactly if no
two lines of a hunk run together** (`applyDiff_generateUnifiedDiff_iff`).
-/

namespace Tile

open PyStr

namespace PyStr

/-- The line boundaries of `str.splitlines`. -/
def isLineBoundary (c : CodePoint) : Bool :=
  (10 ≤ c && c ≤ 13) || (28 ≤ c && c ≤ 30) || c == 0x85 || c == 0x2028 || c == 0x2029

/-- `s.splitlines(keepends=True)`. -/
def splitlinesKeepends : PyStr → List PyStr
  | [] => []
  | c :: rest =>
    if isLineBoundary c ∧ ¬ (c = cr ∧ rest.head? = some lf) then [c] :: splitlinesKeepends rest
    else match splitlinesKeepends rest with
      | [] => [[c]]
      | line :: lines => (c :: line) :: lines

@[simp] theorem flatten_splitlinesKeepends (text : PyStr) :
    (splitlinesKeepends text).flatten = text := by
  induction text with
  | nil => rfl
  | cons c rest ih =>
    rw [splitlinesKeepends]
    split
    · rw [List.flatten_cons, ih]
      rfl
    · split
      next hlines =>
        rw [hlines] at ih
        rw [← ih]
        rfl
      next hlines =>
        rw [hlines] at ih
        rw [← ih]
        rfl

/-- A newline is a boundary, so it is at the end of a line. -/
theorem isLine_of_mem_splitlinesKeepends {text line : PyStr}
    (h : line ∈ splitlinesKeepends text) : IsLine line := by
  induction text generalizing line with
  | nil => simp [splitlinesKeepends] at h
  | cons c rest ih =>
    have hsingle : IsLine [c] := by
      by_cases hc : c = lf
      · exact ⟨[], by simp, .inl (by rw [hc]; rfl)⟩
      · exact ⟨[c], by simp [Ne.symm hc], .inr ⟨rfl, List.cons_ne_nil _ _⟩⟩
    rw [splitlinesKeepends] at h
    split at h
    · rcases List.mem_cons.mp h with rfl | h
      · exact hsingle
      · exact ih h
    next hjoined =>
      have hc : c ≠ lf := by
        rintro rfl
        exact hjoined ⟨rfl, fun h => absurd h.1 (by decide)⟩
      split at h
      · exact List.mem_singleton.mp h ▸ hsingle
      next hlines =>
        rw [hlines] at ih
        rcases List.mem_cons.mp h with rfl | h
        · exact .cons hc (ih List.mem_cons_self)
        · exact ih (List.mem_cons_of_mem _ h)

end PyStr

/-- Generate a standard unified diff for edited LF-normalized content. -/
def generateUnifiedDiff (hunksOf : List PyStr → List PyStr → List (Hunk PyStr))
    (oldContent newContent path : PyStr) : PyStr :=
  (unifiedDiff hunksOf (splitlinesKeepends oldContent) (splitlinesKeepends newContent)
    (ofString "a/" ++ path) (ofString "b/" ++ path)).flatten

/-- What the tool relies on: the hunks take the one list to the other, and a hunk with another
behind it ends with lines of context. -/
structure FindsHunks (hunksOf : List PyStr → List PyStr → List (Hunk PyStr)) : Prop where
  patches : ∀ a b, Patches 0 (hunksOf a b) a b
  context : ∀ a b, ∀ hunk ∈ (hunksOf a b).dropLast, ∀ entry ∈ hunk.entries.getLast?,
    entry.mark = .context

/-! ## The hunks at lines that stop at newlines -/

theorem terminatedLines_append_lines {lines : List PyStr} (hlines : ∀ line ∈ lines, IsLine line)
    (hends : ∀ line ∈ lines, endsWithLf line) (rest : PyStr) :
    terminatedLines (lines.flatten ++ rest) = lines ++ terminatedLines rest := by
  induction lines with
  | nil => rfl
  | cons line lines ih =>
    obtain ⟨hline, hlines⟩ := List.forall_mem_cons.mp hlines
    obtain ⟨hend, hends⟩ := List.forall_mem_cons.mp hends
    rw [List.flatten_cons, List.append_assoc, terminatedLines_cons_line hline hend,
      ih hlines hends, List.cons_append]

theorem mem_of_patches {line : Nat} {hunks : List (Hunk PyStr)} {old new : List PyStr}
    (h : Patches line hunks old new) :
    ∀ hunk ∈ hunks, ∀ entry ∈ hunk.entries, entry.line ∈ old ∨ entry.line ∈ new := by
  induction h with
  | done => exact fun _ hunk => absurd hunk List.not_mem_nil
  | @hunk line hunk hunks skipped old new hstart _ ih =>
    refine List.forall_mem_cons.mpr ⟨fun entry hentry => ?_, fun hunk hhunk entry hentry => ?_⟩
    · by_cases hmark : entry.mark = .inserted
      · have hmem : entry.line ∈ hunk.newLines :=
          List.mem_map_of_mem (List.mem_filter.mpr ⟨hentry, by simp [hmark]⟩)
        exact .inr (by simp [hmem])
      · have hmem : entry.line ∈ hunk.oldLines :=
          List.mem_map_of_mem (List.mem_filter.mpr ⟨hentry, by simp [hmark]⟩)
        exact .inl (by simp [hmem])
    · rcases ih hunk hhunk entry hentry with hmem | hmem
      · exact .inl (by simp [hmem])
      · exact .inr (by simp [hmem])

/-- The old lines of a hunk stand at the start of a text. -/
theorem exists_terminatedLines_iff {hunk : Hunk PyStr}
    (hlines : ∀ entry ∈ hunk.entries, IsLine entry.line) (hseparated : Separated hunk.entries)
    (rest : PyStr) :
    (∃ lines, terminatedLines (hunk.oldLines.flatten ++ rest) = hunk.oldLines ++ lines) ↔
      ∀ entry ∈ hunk.entries.getLast?, endsWithLf entry.line ∨ entry.mark = .inserted ∨
        rest = [] := by
  obtain ⟨oldStart, newStart, entries⟩ := hunk
  rcases List.eq_nil_or_concat' entries with rfl | ⟨init, last, rfl⟩
  · exact iff_of_true ⟨_, rfl⟩ (by simp)
  · rw [Separated, List.dropLast_concat] at hseparated
    set old := (init.filter (·.mark ≠ .inserted)).map (·.line) with hold
    have hmem : ∀ line ∈ old, IsLine line ∧ endsWithLf line := by
      intro line hline
      obtain ⟨entry, hentry, rfl⟩ := List.mem_map.mp hline
      have hinit := (List.mem_filter.mp hentry).1
      exact ⟨hlines entry (List.mem_append_left _ hinit), hseparated entry hinit⟩
    have hsplit := terminatedLines_append_lines (fun line h => (hmem line h).1)
      (fun line h => (hmem line h).2)
    have hline := hlines last (by simp)
    rw [List.getLast?_concat]
    by_cases hmark : last.mark = .inserted
    · have holdLines : Hunk.oldLines ⟨oldStart, newStart, init ++ [last]⟩ = old := by
        simp [Hunk.oldLines, List.filter_append, hmark, hold]
      rw [holdLines]
      refine iff_of_true ⟨_, hsplit rest⟩ ?_
      rintro _ ⟨⟩
      exact .inr (.inl hmark)
    · have holdLines : Hunk.oldLines ⟨oldStart, newStart, init ++ [last]⟩
          = old ++ [last.line] := by
        simp [Hunk.oldLines, List.filter_append, hmark, hold]
      have hfirst : (∃ lines, terminatedLines (last.line ++ rest) = last.line :: lines) ↔
          endsWithLf last.line ∨ rest = [] := by
        by_cases hends : endsWithLf last.line
        · exact iff_of_true ⟨_, terminatedLines_cons_line hline hends rest⟩ (.inl hends)
        · by_cases hrest : rest = []
          · exact iff_of_true ⟨[], by rw [hrest, List.append_nil, terminatedLines_line hline]⟩
              (.inr hrest)
          · -- what is behind the line is read as part of it
            obtain ⟨next, lines, hnext⟩ :=
              List.exists_cons_of_ne_nil (terminatedLines_ne_nil hrest)
            have hne : next ≠ [] := (isLine_of_mem (hnext ▸ List.mem_cons_self)).ne_nil
            rw [terminatedLines_append_cons
              (hline.lf_not_mem (Bool.eq_false_iff.mpr hends)) hnext]
            simp [hends, hrest, hne]
      rw [holdLines, List.flatten_append, List.flatten_singleton, List.append_assoc, hsplit]
      simpa [hmark] using hfirst

/-- The last line of a hunk has its newline, or is not one to find, or is the last of the text. -/
def LastLineEnds (hunk : Hunk PyStr) (lineCount : Nat) : Prop :=
  ∀ entry ∈ hunk.entries.getLast?, endsWithLf entry.line ∨ entry.mark = .inserted ∨
    lineCount ≤ hunk.oldStart + hunk.oldLines.length

/-- One hunk, behind lines that have their newlines. -/
theorem exists_patches_singleton_iff {start : Nat} {hunk : Hunk PyStr} {skipped rest : List PyStr}
    (hstart : hunk.oldStart = start + skipped.length)
    (hskippedLines : ∀ line ∈ skipped, IsLine line) (hskipped : ∀ line ∈ skipped, endsWithLf line)
    (hentries : ∀ entry ∈ hunk.entries, IsLine entry.line) (hrest : ∀ line ∈ rest, IsLine line)
    (hseparated : Separated hunk.entries) :
    (∃ lines, Patches start [hunk]
        (terminatedLines (skipped ++ (hunk.oldLines ++ rest)).flatten) lines ∧
        lines.flatten = (skipped ++ (hunk.newLines ++ rest)).flatten) ↔
      LastLineEnds hunk (start + (skipped ++ (hunk.oldLines ++ rest)).length) := by
  rw [List.flatten_append, terminatedLines_append_lines hskippedLines hskipped,
    List.flatten_append]
  simp only [patches_cons_iff hstart]
  have hlast := exists_terminatedLines_iff hentries hseparated rest.flatten
  rw [flatten_eq_nil_iff hrest] at hlast
  have hcount : (start + (skipped ++ (hunk.oldLines ++ rest)).length
      ≤ hunk.oldStart + hunk.oldLines.length) ↔ rest = [] := by
    rw [← List.length_eq_zero_iff, List.length_append, List.length_append]
    omega
  simp only [LastLineEnds, hcount, ← hlast]
  constructor
  · rintro ⟨lines, ⟨after, _, hafter, rfl, -⟩, -⟩
    exact ⟨after, hafter⟩
  · rintro ⟨after, hafter⟩
    have hflatten := congrArg List.flatten hafter
    rw [flatten_terminatedLines, List.flatten_append, List.append_cancel_left_eq] at hflatten
    refine ⟨_, ⟨after, after, hafter, rfl, .done after⟩, ?_⟩
    simp [hflatten]

/-- **Hunks found in other lines fit the text cut at newlines**, if their last line does. -/
theorem exists_patches_terminatedLines_iff {start : Nat} {hunks : List (Hunk PyStr)}
    {old new : List PyStr} (h : Patches start hunks old new) (hne : hunks ≠ [])
    (hold : ∀ line ∈ old, IsLine line) (hnew : ∀ line ∈ new, IsLine line)
    (hfront : ∀ line ∈ old.take (linesInFront hunks - start), endsWithLf line)
    (hseparated : ∀ hunk ∈ hunks, Separated hunk.entries) :
    (∃ lines, Patches start hunks (terminatedLines old.flatten) lines ∧
        lines.flatten = new.flatten) ↔
      ∀ hunk ∈ hunks.getLast?, LastLineEnds hunk (start + old.length) := by
  induction h with
  | done => exact absurd rfl hne
  | @hunk start hunk hunks skipped old new hstart hpatches ih =>
    have hentries : ∀ entry ∈ hunk.entries, IsLine entry.line := fun entry hentry =>
      (mem_of_patches (.hunk skipped hstart hpatches) hunk List.mem_cons_self entry hentry).elim
        (hold _) (hnew _)
    obtain ⟨hskippedLines, hrestLines⟩ := List.forall_mem_append.mp hold
    obtain ⟨holdLines, hrestLines⟩ := List.forall_mem_append.mp hrestLines
    obtain ⟨-, hnewLines⟩ := List.forall_mem_append.mp hnew
    obtain ⟨-, hnewLines⟩ := List.forall_mem_append.mp hnewLines
    cases hunks with
    | nil =>
      obtain rfl := patches_nil_iff.mp hpatches
      have hcount : linesInFront [hunk] - start = skipped.length := Nat.sub_eq_of_eq_add' hstart
      rw [hcount, List.take_left] at hfront
      simpa using exists_patches_singleton_iff hstart hskippedLines hfront hentries hrestLines
        (hseparated hunk List.mem_cons_self)
    | cons next hunks =>
      rw [hpatches.take_linesInFront hstart (List.cons_ne_nil _ _)] at hfront
      obtain ⟨hskipped, hfront⟩ := List.forall_mem_append.mp hfront
      obtain ⟨hfound, hbetween⟩ := List.forall_mem_append.mp hfront
      rw [List.flatten_append, terminatedLines_append_lines hskippedLines hskipped,
        List.flatten_append, terminatedLines_append_lines holdLines hfound,
        List.getLast?_cons_cons]
      simp only [patches_cons_iff hstart]
      have hlength : start + (skipped ++ (hunk.oldLines ++ old)).length
          = hunk.oldStart + hunk.oldLines.length + old.length := by
        rw [List.length_append, List.length_append]
        omega
      rw [hlength, ← ih (List.cons_ne_nil _ _) hrestLines hnewLines hbetween
        (fun hunk hhunk => hseparated hunk (List.mem_cons_of_mem _ hhunk))]
      constructor
      · rintro ⟨lines, ⟨old', new', hrest, rfl, hpatches⟩, hflatten⟩
        obtain rfl := List.append_cancel_left hrest
        exact ⟨new', hpatches, by simpa using hflatten⟩
      · rintro ⟨new', hpatches, hflatten⟩
        exact ⟨_, ⟨_, new', rfl, rfl, hpatches⟩, by simp [hflatten]⟩

/-! ## The diff of an edit -/

/-- **The diff takes the old content to the new one exactly if no two lines of a hunk run together**
and the last line of the last hunk has its newline, is an inserted one, or is the last of the old
content. -/
theorem applyDiff_generateUnifiedDiff_iff
    {hunksOf : List PyStr → List PyStr → List (Hunk PyStr)} (hfinds : FindsHunks hunksOf)
    {oldContent newContent path : PyStr} (hpath : lf ∉ path)
    (hfront : ∀ line ∈ (splitlinesKeepends oldContent).take
      (linesInFront (hunksOf (splitlinesKeepends oldContent) (splitlinesKeepends newContent))),
      endsWithLf line) :
    applyDiff (generateUnifiedDiff hunksOf oldContent newContent path) oldContent
        = some newContent ↔
      (∀ hunk ∈ hunksOf (splitlinesKeepends oldContent) (splitlinesKeepends newContent),
        Separated hunk.entries) ∧
      ∀ hunk ∈ (hunksOf (splitlinesKeepends oldContent) (splitlinesKeepends newContent)).getLast?,
        LastLineEnds hunk (splitlinesKeepends oldContent).length := by
  have hpatches := hfinds.patches (splitlinesKeepends oldContent) (splitlinesKeepends newContent)
  have hcontext := hfinds.context (splitlinesKeepends oldContent) (splitlinesKeepends newContent)
  have hname : ∀ {mark : PyStr}, lf ∉ mark → lf ∉ mark ++ path := fun hmark => by
    simp [hmark, hpath]
  rw [applyDiff, generateUnifiedDiff,
    readDiff_unifiedDiff (hname (by decide)) (hname (by decide))]
  set hunks := hunksOf (splitlinesKeepends oldContent) (splitlinesKeepends newContent)
  have hlines : ∀ hunk ∈ hunks, ∀ entry ∈ hunk.entries, IsLine entry.line :=
    fun hunk hhunk entry hentry => (mem_of_patches hpatches hunk hhunk entry hentry).elim
      isLine_of_mem_splitlinesKeepends isLine_of_mem_splitlinesKeepends
  have hends : ∀ hunk ∈ hunks.dropLast, ∀ entry ∈ hunk.entries.getLast?, endsWithLf entry.line := by
    intro hunk hhunk entry hentry
    have hmem : entry.line ∈ hunk.oldLines :=
      List.mem_map_of_mem (List.mem_filter.mpr ⟨List.mem_of_getLast? hentry,
        by simp [hcontext hunk hhunk entry hentry]⟩)
    exact hfront _ (hpatches.mem_take_linesInFront hunk hhunk _ hmem)
  obtain ⟨hsome, hnone⟩ := readHunks_flatMap_pieces hlines hends
  by_cases hseparated : ∀ hunk ∈ hunks, Separated hunk.entries
  · have hread : (patch 0 hunks (terminatedLines oldContent) >>= fun lines => some lines.flatten)
        = some newContent ↔ ∃ lines, Patches 0 hunks (terminatedLines oldContent) lines ∧
          lines.flatten = newContent := by
      simp only [Option.bind_eq_bind, Option.bind_eq_some_iff, patch_eq_some_iff, Option.some.injEq]
    rw [hsome hseparated, Option.map_some, Option.bind_eq_bind, Option.bind_some, hread,
      and_iff_right hseparated]
    by_cases hne : hunks = []
    · rw [hne, patches_nil_iff] at hpatches
      have hcontent := congrArg List.flatten hpatches
      rw [flatten_splitlinesKeepends, flatten_splitlinesKeepends] at hcontent
      rw [hne]
      exact iff_of_true ⟨_, .done _, by rw [flatten_terminatedLines, hcontent]⟩ (by simp)
    · have hiff := exists_patches_terminatedLines_iff hpatches hne
        (fun _ => isLine_of_mem_splitlinesKeepends) (fun _ => isLine_of_mem_splitlinesKeepends)
        hfront hseparated
      rwa [flatten_splitlinesKeepends, flatten_splitlinesKeepends, Nat.zero_add] at hiff
  · rw [hnone hseparated]
    exact iff_of_false (by simp) fun h => hseparated h.1

/-- Every line deleted and every line inserted, as where two texts have no line in common. -/
def replaceAll (a b : List PyStr) : List (Hunk PyStr) :=
  if a = b then [] else [⟨0, 0, a.map (⟨.deleted, ·⟩) ++ b.map (⟨.inserted, ·⟩)⟩]

theorem findsHunks_replaceAll : FindsHunks replaceAll where
  patches a b := by
    rw [replaceAll]
    split
    next h =>
      subst h
      exact .done a
    next h =>
      have hpatches := @Patches.hunk PyStr 0
        ⟨0, 0, a.map (⟨.deleted, ·⟩) ++ b.map (⟨.inserted, ·⟩)⟩ [] [] [] [] rfl (.done [])
      simpa [Hunk.oldLines, Hunk.newLines, List.filter_append, List.filter_map,
        Function.comp_def] using hpatches
  context a b := by
    rw [replaceAll]
    split <;> simp

theorem applyDiff_generateUnifiedDiff_iff_terminated :
    applyDiff (generateUnifiedDiff replaceAll (ofString "a\n") (ofString "b") (ofString "f"))
        (ofString "a\n") = some (ofString "b") ↔
      (∀ hunk ∈ replaceAll (splitlinesKeepends (ofString "a\n"))
          (splitlinesKeepends (ofString "b")), Separated hunk.entries) ∧
      ∀ hunk ∈ (replaceAll (splitlinesKeepends (ofString "a\n"))
          (splitlinesKeepends (ofString "b"))).getLast?,
        LastLineEnds hunk (splitlinesKeepends (ofString "a\n")).length :=
  applyDiff_generateUnifiedDiff_iff findsHunks_replaceAll (by decide) (by decide +kernel)

/-- Without a newline at the end of the old content, its last line and the line put in its place are
one line of the diff: `-a+b`. -/
theorem not_applyDiff_unterminated :
    FindsHunks replaceAll ∧
      generateUnifiedDiff replaceAll (ofString "a") (ofString "b") (ofString "f")
        = ofString "--- a/f\n+++ b/f\n@@ -1 +1 @@\n-a+b" ∧
      applyDiff (generateUnifiedDiff replaceAll (ofString "a") (ofString "b") (ofString "f"))
        (ofString "a") ≠ some (ofString "b") :=
  ⟨findsHunks_replaceAll, by decide +kernel, by decide +kernel⟩

end Tile
