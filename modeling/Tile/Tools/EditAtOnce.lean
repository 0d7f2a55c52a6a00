import Tile.Library.Simultaneous
import Tile.Tools.EditMatching

/-!
# Tools/EditAtOnce — edits made in windows of lines

A text that is matched by whole lines stands where a window of lines **reads like** its own lines
(`spanOf_lineMatcher_iff`).  The windows are replaced one after the other, which is the same as all
at once unless a window starts where an empty one has put something (`madeAtOnce_iff`).
-/

namespace Tile

open PyStr

/-! ## Windows -/

/-- The lines of a window read like the lines of an old text: equal once normalized, but that the
last may have a newline which the old text does not claim. -/
inductive ReadsLike (nfkc : PyStr → PyStr) : (window old : List PyStr) → Prop where
  | last {line oldLine : PyStr}
    (h : normalizeForFuzzyMatch nfkc line = normalizeForFuzzyMatch nfkc oldLine ∨
      endsWithLf oldLine = false ∧
        normalizeForFuzzyMatch nfkc line = normalizeForFuzzyMatch nfkc oldLine ++ [lf]) :
    ReadsLike nfkc [line] [oldLine]
  | cons {line oldLine : PyStr} {window old : List PyStr}
    (h : normalizeForFuzzyMatch nfkc line = normalizeForFuzzyMatch nfkc oldLine)
    (rest : ReadsLike nfkc window old) : ReadsLike nfkc (line :: window) (oldLine :: old)

/-- The span of an edit: from the start of the one window that reads like its old text to the end,
without the last newline if the old text claims none. -/
structure IsWindow (nfkc : PyStr → PyStr) (content : PyStr) (edit : EditReplacement)
    (span : Span CodePoint) : Prop where
  window : ∃ pre mid post, terminatedLines content = pre ++ mid ++ post ∧
    ReadsLike nfkc mid (terminatedLines (normalizeToLf edit.oldText)) ∧
    (∀ pre' mid' post', terminatedLines content = pre' ++ mid' ++ post' →
      ReadsLike nfkc mid' (terminatedLines (normalizeToLf edit.oldText)) →
      pre'.length = pre.length) ∧
    span.start = pre.flatten.length ∧
    span.stop = if endsWithLf (normalizeToLf edit.oldText) = false ∧ endsWithLf mid.flatten
      then (pre ++ mid).flatten.length - 1 else (pre ++ mid).flatten.length
  replacement : span.replacement = normalizeToLf edit.newText

/-- Every edit is made in its own window, and all of them at once. -/
def MadeAtOnce (nfkc : PyStr → PyStr) (content : PyStr) (edits : List EditReplacement)
    (newContent : PyStr) : Prop :=
  ∃ spans, List.Forall₂ (IsWindow nfkc content) edits spans ∧ spans.Pairwise Span.Disjoint ∧
    Simultaneous content spans newContent

/-! ## The windows that are found -/

section Windows

variable {nfkc : PyStr → PyStr} {content : PyStr}

theorem ReadsLike.length_eq {window old : List PyStr} (h : ReadsLike nfkc window old) :
    window.length = old.length := by
  induction h with
  | last _ => rfl
  | cons _ _ ih => simp [ih]

theorem ReadsLike.ne_nil {window old : List PyStr} (h : ReadsLike nfkc window old) :
    window ≠ [] := by
  cases h <;> simp

theorem readsLike_cons_iff {line oldLine next : PyStr} {window old : List PyStr} :
    ReadsLike nfkc (line :: window) (oldLine :: next :: old) ↔
      normalizeForFuzzyMatch nfkc line = normalizeForFuzzyMatch nfkc oldLine ∧
        ReadsLike nfkc window (next :: old) := by
  constructor
  · intro h
    cases h with
    | cons hhead hrest => exact ⟨hhead, hrest⟩
  · exact fun h => .cons h.1 h.2

theorem windowMatchesAt_cons {normalizedLines window : List PyStr} {line : PyStr}
    (hwindow : window ≠ []) (start : Nat) :
    windowMatchesAt normalizedLines (line :: window) start ↔
      normalizedLines[start]? = some line ∧
        windowMatchesAt normalizedLines window (start + 1) := by
  have hdrop : (line :: window).dropLast = line :: window.dropLast :=
    List.dropLast_cons_of_ne_nil hwindow
  have hlast : (line :: window).getLastD [] = window.getLastD [] := by
    rw [getLastD_eq_getLast (List.cons_ne_nil _ _), getLastD_eq_getLast hwindow,
      List.getLast_cons hwindow]
  have hindex : start + (line :: window.dropLast).length
      = start + 1 + window.dropLast.length := by
    simp
    omega
  rw [windowMatchesAt, windowMatchesAt, hdrop, hlast, hindex, Bool.and_eq_true, Bool.and_eq_true,
    ← and_assoc]
  refine and_congr_left fun _ => ?_
  rw [beq_iff_eq, beq_iff_eq, List.length_cons]
  cases hline : normalizedLines[start]? with
  | none =>
    rw [List.drop_eq_nil_of_le (List.getElem?_eq_none_iff.mp hline)]
    simp
  | some first =>
    obtain ⟨hlt, hget⟩ := List.getElem?_eq_some_iff.mp hline
    rw [List.drop_eq_getElem_cons hlt, List.take_succ_cons, List.cons_eq_cons, hget,
      Option.some_inj]

theorem windowMatchesAt_iff (hnfkc : NewlineStable nfkc) {lines old : List PyStr} (hold : old ≠ [])
    (hlines : ∀ line ∈ old, IsLine line) {start : Nat}
    (hstart : start + old.length ≤ lines.length) :
    windowMatchesAt (lines.map (normalizeForFuzzyMatch nfkc))
        (old.map (normalizeForFuzzyMatch nfkc)) start ↔
      ReadsLike nfkc ((lines.drop start).take old.length) old := by
  induction old generalizing start with
  | nil => exact absurd rfl hold
  | cons oldLine rest ih =>
    obtain ⟨hline, hrest⟩ := List.forall_mem_cons.mp hlines
    rw [List.length_cons] at hstart
    have hlt : start < lines.length := by omega
    rw [List.drop_eq_getElem_cons hlt, List.length_cons, List.take_succ_cons]
    cases rest with
    | nil =>
      have hget : (lines.map (normalizeForFuzzyMatch nfkc)).getD start []
          = normalizeForFuzzyMatch nfkc lines[start] := by
        rw [List.getD_eq_getElem?_getD, List.getElem?_map, List.getElem?_eq_getElem hlt]
        rfl
      have hmatches : windowMatchesAt (lines.map (normalizeForFuzzyMatch nfkc))
          ([oldLine].map (normalizeForFuzzyMatch nfkc)) start
          = lastWindowLineMatches (normalizeForFuzzyMatch nfkc lines[start])
            (normalizeForFuzzyMatch nfkc oldLine) := by
        rw [← hget]
        simp [windowMatchesAt]
      rw [hmatches, lastWindowLineMatches, endsWithLf_normalize hnfkc hline]
      constructor
      · intro h
        split at h
        · exact .last (.inl (by simpa using h))
        · next hopen => exact .last (by simpa [hopen] using h)
      · rintro (h | ⟨-, ⟨⟩⟩)
        rcases h with h | ⟨hopen, h⟩
        · split <;> simp [h]
        · simp [hopen, h]
    | cons next rest =>
      rw [List.map_cons, windowMatchesAt_cons (by simp),
        ih (by simp) hrest (by simp only [List.length_cons] at hstart ⊢; omega),
        List.getElem?_map, List.getElem?_eq_getElem hlt, Option.map_some, Option.some_inj]
      exact readsLike_cons_iff.symm

theorem mem_findWindowStarts_iff (hnfkc : NewlineStable nfkc) {lines old : List PyStr}
    (hold : old ≠ []) (hlines : ∀ line ∈ old, IsLine line) {start : Nat} :
    start ∈ findWindowStarts (lines.map (normalizeForFuzzyMatch nfkc))
        (old.map (normalizeForFuzzyMatch nfkc)) ↔
      ∃ pre mid post, lines = pre ++ mid ++ post ∧ pre.length = start ∧ ReadsLike nfkc mid old := by
  rw [findWindowStarts, List.mem_filter, List.mem_range, List.length_map, List.length_map]
  constructor
  · rintro ⟨hlt, hmatch⟩
    refine ⟨lines.take start, (lines.drop start).take old.length,
      (lines.drop start).drop old.length, ?_, List.length_take_of_le (by omega),
      (windowMatchesAt_iff hnfkc hold hlines (by omega)).mp hmatch⟩
    rw [List.append_assoc, List.take_append_drop, List.take_append_drop]
  · rintro ⟨pre, mid, post, rfl, rfl, hreads⟩
    have hlength := hreads.length_eq
    have hmid : ((pre ++ mid ++ post).drop pre.length).take old.length = mid := by
      rw [List.append_assoc, List.drop_left, ← hlength, List.take_left]
    refine ⟨by simp; omega, (windowMatchesAt_iff hnfkc hold hlines (by simp; omega)).mpr ?_⟩
    rwa [hmid]

theorem eq_singleton_iff {α : Type} {items : List α} (hnodup : items.Nodup) {a : α} :
    items = [a] ↔ ∀ b, b ∈ items ↔ b = a := by
  constructor
  · rintro rfl b
    exact List.mem_singleton
  · intro h
    refine List.perm_singleton.mp ((List.perm_ext_iff_of_nodup hnodup (List.nodup_singleton a)).mpr
      fun b => (h b).trans List.mem_singleton.symm)

/-- **The span of an edit** that is found once by lines. -/
theorem spanOf_lineMatcher_iff (hnfkc : NewlineStable nfkc) {edit : EditReplacement}
    (hold : edit.oldText ≠ []) {span : Span CodePoint} :
    (lineMatcher nfkc content).spanOf edit = some span ↔ IsWindow nfkc content edit span := by
  have hlf := normalizeToLf_ne_nil hold
  have hne := terminatedLines_ne_nil hlf
  set old := terminatedLines (normalizeToLf edit.oldText) with hdef
  have hlines : ∀ line ∈ old, IsLine line := fun line hline => isLine_of_mem hline
  have hmem : ∀ {start : Nat}, start ∈ (lineMatcher nfkc content).starts edit ↔ _ := fun {start} =>
    @mem_findWindowStarts_iff nfkc hnfkc (terminatedLines content) old hne hlines start
  have hnodup : ((lineMatcher nfkc content).starts edit).Nodup := List.nodup_range.filter _
  have hterminated : endsWithLf ((fuzzyWindow nfkc edit).getLastD [])
      = endsWithLf (normalizeToLf edit.oldText) := by
    rw [endsWithLf_fuzzyWindow hnfkc hlf, endsWithLf_getLastD hlf]
  -- where a window starts that reads like the old text, the span is its characters
  have hchars : ∀ {pre mid post : List PyStr}, terminatedLines content = pre ++ mid ++ post →
      ReadsLike nfkc mid old → (lineMatcher nfkc content).spanAt edit pre.length
        = { start := pre.flatten.length
            stop := if endsWithLf (normalizeToLf edit.oldText) = false ∧ endsWithLf mid.flatten
              then (pre ++ mid).flatten.length - 1 else (pre ++ mid).flatten.length
            replacement := normalizeToLf edit.newText } := by
    intro pre mid post hcontent hreads
    have hlast : mid.getLastD [] ≠ [] := by
      rw [getLastD_eq_getLast hreads.ne_nil]
      refine (@isLine_of_mem content _ ?_).ne_nil
      rw [hcontent]
      simp [List.getLast_mem hreads.ne_nil]
    have hspan := @windowCharSpan_append pre mid post hreads.ne_nil hlast
      (endsWithLf (normalizeToLf edit.oldText))
    rw [hreads.length_eq, ← hcontent] at hspan
    have hwindow : (fuzzyWindow nfkc edit).length = old.length := List.length_map _
    simp only [lineMatcher, hterminated, hwindow, hspan]
  rw [Matcher.spanOf_eq_some]
  constructor
  · rintro ⟨start, hstarts, rfl⟩
    obtain ⟨pre, mid, post, hcontent, rfl, hreads⟩ :=
      hmem.mp (hstarts ▸ List.mem_singleton_self start)
    rw [hchars hcontent hreads]
    refine ⟨⟨pre, mid, post, hcontent, hreads, fun pre' mid' post' hcontent' hreads' => ?_, rfl,
      rfl⟩, rfl⟩
    exact ((eq_singleton_iff hnodup).mp hstarts _).mp
      (hmem.mpr ⟨pre', mid', post', hcontent', rfl, hreads'⟩)
  · rintro ⟨⟨pre, mid, post, hcontent, hreads, hunique, hstart, hstop⟩, hreplacement⟩
    refine ⟨pre.length, (eq_singleton_iff hnodup).mpr fun start => ⟨fun h => ?_, ?_⟩, ?_⟩
    · obtain ⟨pre', mid', post', hcontent', rfl, hreads'⟩ := hmem.mp h
      exact hunique pre' mid' post' hcontent' hreads'
    · rintro rfl
      exact hmem.mpr ⟨pre, mid, post, hcontent, rfl, hreads⟩
    · rw [hchars hcontent hreads, ← hstart, ← hstop, ← hreplacement]

end Windows

/-! ## One after the other -/

theorem forall₂_isWindow_iff {nfkc : PyStr → PyStr} (hnfkc : NewlineStable nfkc) {content : PyStr}
    {edits : List EditReplacement} (hold : ∀ edit ∈ edits, edit.oldText ≠ [])
    {spans : List (Span CodePoint)} :
    List.Forall₂ (IsWindow nfkc content) edits spans ↔
      (∀ edit ∈ edits, (lineMatcher nfkc content).Unique edit) ∧
        (lineMatcher nfkc content).spans edits = spans := by
  rw [← Matcher.forall₂_spanOf_iff]
  induction edits generalizing spans with
  | nil => simp
  | cons edit rest ih =>
    obtain ⟨hedit, hrest⟩ := List.forall_mem_cons.mp hold
    simp only [List.forall₂_cons_left_iff, ih hrest, spanOf_lineMatcher_iff hnfkc hedit]

theorem madeAtOnce_of_serves {nfkc : PyStr → PyStr} (hnfkc : NewlineStable nfkc)
    {content newContent : PyStr} {edits : List EditReplacement}
    (hold : ∀ edit ∈ edits, edit.oldText ≠ [])
    (h : (lineMatcher nfkc content).Serves content edits newContent) :
    MadeAtOnce nfkc content edits newContent ↔
      ∀ span ∈ (lineMatcher nfkc content).spans edits, span.start < span.stop →
        span.Spares content ((lineMatcher nfkc content).spans edits) := by
  have hfits := lineMatcher_fits nfkc content fun edit hedit =>
    normalizeToLf_ne_nil (hold edit hedit)
  rw [← simultaneous_iff hfits h.admits, h.splice_eq]
  constructor
  · rintro ⟨spans, hspans, -, hat⟩
    obtain ⟨-, rfl⟩ := (forall₂_isWindow_iff hnfkc hold).mp hspans
    exact hat
  · intro hat
    exact ⟨_, (forall₂_isWindow_iff hnfkc hold).mpr ⟨h.unique, rfl⟩,
      h.admits.imp Span.Admits.disjoint, hat⟩

/-- **When windows are replaced as if at once.**  A request that whole-line matching serves is made
in the windows its old texts read like, all at once, if and only if no window takes anything of what
the edits with an empty window at its start have put there. -/
theorem madeAtOnce_iff {nfkc : PyStr → PyStr} (hnfkc : NewlineStable nfkc) {content : PyStr}
    {edits : List EditReplacement} {path : String} {application : ReplacementApplication}
    (hold : ∀ edit ∈ edits, edit.oldText ≠ [])
    (h : applyFuzzyReplacements nfkc content edits path = .ok application) :
    MadeAtOnce nfkc content edits application.newContent ↔
      ∀ span ∈ (lineMatcher nfkc content).spans edits, span.start < span.stop →
        span.Spares content ((lineMatcher nfkc content).spans edits) := by
  have hfits := lineMatcher_fits nfkc content fun edit hedit =>
    normalizeToLf_ne_nil (hold edit hedit)
  exact madeAtOnce_of_serves hnfkc hold
    ((Matcher.apply_iff_serves path hfits _).mp ⟨application, h, rfl⟩)

/-- A text that starts with an empty line. -/
def blank : PyStr := .ofString "\nfoo\n"

/-- Two edits of the empty line, without its newline and with it. -/
def blankEdits : List EditReplacement :=
  [⟨.ofString " ", .ofString "A"⟩, ⟨.ofString "\n", .ofString "B"⟩]

theorem apply_blankEdits :
    applyFuzzyReplacements id blank blankEdits "notes.txt"
      = .ok ⟨blank, .ofString "B\nfoo\n"⟩ := by
  decide +kernel

theorem madeAtOnce_iff_blank :
    MadeAtOnce id blank blankEdits (.ofString "B\nfoo\n") ↔
      ∀ span ∈ (lineMatcher id blank).spans blankEdits, span.start < span.stop →
        span.Spares blank ((lineMatcher id blank).spans blankEdits) :=
  madeAtOnce_iff newlineStable_id (by decide +kernel) apply_blankEdits

/-- The second edit replaces the `A` that the first has put there, and not the newline. -/
theorem not_madeAtOnce_blank :
    applyFuzzyReplacements id blank blankEdits "notes.txt"
        = .ok ⟨blank, .ofString "B\nfoo\n"⟩ ∧
      ¬ MadeAtOnce id blank blankEdits (.ofString "B\nfoo\n") := by
  refine ⟨apply_blankEdits, fun hat => ?_⟩
  have hold : ∀ edit ∈ blankEdits, edit.oldText ≠ [] := by decide +kernel
  have hfits := lineMatcher_fits id blank fun edit hedit => normalizeToLf_ne_nil (hold edit hedit)
  have hserves := (Matcher.apply_iff_serves "notes.txt" hfits _).mp ⟨_, apply_blankEdits, rfl⟩
  have hspans : (lineMatcher id blank).spans blankEdits
      = [⟨0, 0, ofString "A"⟩, ⟨0, 1, ofString "B"⟩] := by decide +kernel
  rw [madeAtOnce_of_serves newlineStable_id hold hserves, hspans] at hat
  obtain ⟨order, hperm, hput⟩ := hat ⟨0, 1, ofString "B"⟩ (by simp) (by decide)
  have hinserts : insertsAt [⟨0, 0, ofString "A"⟩, ⟨0, 1, ofString "B"⟩] ⟨0, 1, ofString "B"⟩
      = [⟨0, 0, ofString "A"⟩] := rfl
  rw [hinserts] at hperm hput
  rw [List.perm_singleton.mp hperm] at hput
  exact absurd hput (by decide +kernel)

end Tile
