import Tile.Library.Effect
import Tile.Library.SpliceOrder
import Tile.Tools.EditLines
import Tile.Tools.EditNewlines

/-!
# Tools/EditSpans — the spans a request is applied with

Both matchers return one span for every replacement, inside the content and out of each other's way
(`matchExactSpans_proper`, `matchFuzzySpans_proper`).  A request that succeeds was served by one of
the two (`applyReplacementsWithFallback_eq_ok`), and its result is the splice of those spans.
-/

namespace Tile

open PyStr

/-! ## Reading the matchers back -/

/-- A numbered `mapM` that ended with a value, item by item. -/
theorem zipIdx_mapM_eq_ok {ε α β : Type} {f : Nat → α → Except ε β} :
    ∀ {items : List α} {n : Nat} {results : List β},
      (items.zipIdx n).mapM (fun x => f x.2 x.1) = .ok results →
      results.length = items.length ∧
        ∀ i a b, items[i]? = some a → results[i]? = some b → f (n + i) a = .ok b
  | [], n, results, h => by
    obtain rfl : [] = results := Except.ok.inj h
    simp
  | a :: rest, n, results, h => by
    rw [List.zipIdx_cons, List.mapM_cons] at h
    obtain ⟨b, hb, h⟩ := except_bind_eq_ok.mp h
    obtain ⟨bs, hbs, h⟩ := except_bind_eq_ok.mp h
    obtain rfl : b :: bs = results := Except.ok.inj h
    obtain ⟨hlength, hrest⟩ := zipIdx_mapM_eq_ok hbs
    refine ⟨by simp [hlength], fun i a' b' ha' hb' => ?_⟩
    cases i with
    | zero =>
      obtain rfl : a = a' := by simpa using ha'
      obtain rfl : b = b' := by simpa using hb'
      exact hb
    | succ i =>
      have hnext := hrest i a' b' ha' hb'
      rwa [Nat.add_right_comm, Nat.add_assoc] at hnext

/-- A unique match is the only one. -/
theorem requireUniqueMatch_eq_ok {starts : List Nat} {path : String} {index total start : Nat}
    (h : requireUniqueMatch starts path index total = .ok start) : starts = [start] := by
  unfold requireUniqueMatch at h
  split at h <;> simp at h
  rw [h]

/-- The check passes exactly when each span ends before the next one starts. -/
theorem rejectOverlap_cases (path : String) :
    ∀ spans : List MatchedSpan,
      rejectOverlap path spans = .ok () ∧ (spans.IsChain fun a b => a.stop ≤ b.start) ∨
      (∃ i j, rejectOverlap path spans = .error (.overlap i j path)) ∧
        ¬ spans.IsChain fun a b => a.stop ≤ b.start
  | [] => .inl ⟨rfl, .nil⟩
  | [a] => .inl ⟨rfl, .singleton a⟩
  | a :: b :: rest => by
    rw [rejectOverlap, List.isChain_cons_cons]
    split
    · exact .inr ⟨⟨_, _, rfl⟩, by omega⟩
    · exact (rejectOverlap_cases path (b :: rest)).imp
        (fun h => ⟨h.1, by omega, h.2⟩) fun h => ⟨h.1, fun h' => h.2 h'.2⟩

/-- Each span comes from the replacement at its position, and they passed the overlap check. -/
theorem matchSpans_eq_ok {spanOf : Nat → EditReplacement → Except EditError MatchedSpan}
    {replacements : List EditReplacement} {path : String} {spans : List MatchedSpan}
    (h : matchSpans spanOf replacements path = .ok spans) :
    spans.length = replacements.length ∧
      (∀ i edit span, replacements[i]? = some edit → spans[i]? = some span →
        spanOf i edit = .ok span) ∧
      validateNonOverlapping spans path = .ok () := by
  obtain ⟨found, hfound, h⟩ := except_bind_eq_ok.mp h
  obtain ⟨_, hvalid, h⟩ := except_bind_eq_ok.mp h
  obtain rfl : found = spans := Except.ok.inj h
  obtain ⟨hlength, hspans⟩ := zipIdx_mapM_eq_ok hfound
  exact ⟨hlength, fun i edit span he hs => by simpa using hspans i edit span he hs, hvalid⟩

/-- …so every span comes from some replacement. -/
theorem exists_replacement_of_matchSpans
    {spanOf : Nat → EditReplacement → Except EditError MatchedSpan}
    {replacements : List EditReplacement} {path : String} {spans : List MatchedSpan}
    (h : matchSpans spanOf replacements path = .ok spans) {span : MatchedSpan}
    (hspan : span ∈ spans) : ∃ i, ∃ edit ∈ replacements, spanOf i edit = .ok span := by
  obtain ⟨hlength, hspans, -⟩ := matchSpans_eq_ok h
  obtain ⟨i, hi, rfl⟩ := List.getElem_of_mem hspan
  exact ⟨i, replacements[i], List.getElem_mem _,
    hspans i _ _ (List.getElem?_eq_getElem (hlength ▸ hi)) (List.getElem?_eq_getElem hi)⟩

/-! ## Proper spans -/

/-- The span of a match, without its index. -/
def MatchedSpan.span (matched : MatchedSpan) : Span CodePoint where
  start := matched.start
  stop := matched.stop
  replacement := matched.replacement

/-- The overlap check goes through the spans by their starts. -/
theorem map_span_ascending (spans : List MatchedSpan) :
    (spans.insertionSort (·.start ≤ ·.start)).map (·.span) = ascending (spans.map (·.span)) :=
  List.map_insertionSort _ _ _ _ fun _ _ _ _ => Iff.rfl

/-- The splice goes through them from the end. -/
theorem map_span_descending (spans : List MatchedSpan) :
    (spans.insertionSort fun a b => b.start ≤ a.start).map (·.span)
      = descending (spans.map (·.span)) :=
  List.map_insertionSort _ _ _ _ fun _ _ _ _ => Iff.rfl

/-- `_splice_text_spans` replaces the spans one after another, from the last to the first. -/
theorem spliceTextSpans_eq (content : PyStr) (spans : List MatchedSpan) :
    spliceTextSpans content spans = splice content (descending (spans.map (·.span))) := by
  rw [← map_span_descending, splice, spliceTextSpans, List.foldl_map]
  rfl

/-- The overlap check looks at neighbours only, which is enough once the spans are sorted. -/
theorem validateNonOverlapping_cases {spans : List MatchedSpan} (path : String)
    (hproper : ∀ span ∈ spans, span.span.start ≤ span.span.stop) :
    validateNonOverlapping spans path = .ok () ∧ (spans.map (·.span)).Pairwise Span.Admits ∨
    (∃ i j, validateNonOverlapping spans path = .error (.overlap i j path)) ∧
      ¬ (spans.map (·.span)).Pairwise Span.Admits := by
  have hiff : ((spans.insertionSort (·.start ≤ ·.start)).IsChain fun a b => a.stop ≤ b.start) ↔
      (spans.map (·.span)).Pairwise Span.Admits := by
    rw [← pairwise_ascending_iff, ← map_span_ascending]
    refine Iff.trans (List.isChain_map (R := fun a b : Span CodePoint => a.stop ≤ b.start)
      MatchedSpan.span).symm ⟨pairwise_of_isChain ?_, List.Pairwise.isChain⟩
    simpa using hproper
  rw [← hiff]
  exact rejectOverlap_cases path _

/-- The spans lie in a content of this length and do not reach into each other. -/
structure ProperSpans (spans : List MatchedSpan) (length : Nat) : Prop where
  fits : ∀ span ∈ spans, span.span.Fits length
  disjoint : spans.Pairwise fun a b => a.span.Disjoint b.span

/-- Spans in the text that passed the overlap check are proper. -/
theorem ProperSpans.of_validated {spans : List MatchedSpan} {path : String} {length : Nat}
    (hfits : ∀ span ∈ spans, span.span.Fits length)
    (hvalid : validateNonOverlapping spans path = .ok ()) : ProperSpans spans length := by
  refine ⟨hfits, ?_⟩
  rcases validateNonOverlapping_cases path fun span hspan => (hfits span hspan).1 with
    ⟨-, hadmits⟩ | ⟨⟨i, j, herror⟩, -⟩
  · exact (List.pairwise_map.mp hadmits).imp Span.Admits.disjoint
  · rw [hvalid] at herror
    cases herror

/-- What is spliced is woven of what was kept and what was put in. -/
theorem ProperSpans.splice_woven {content : PyStr} {spans : List MatchedSpan}
    (h : ProperSpans spans content.length) :
    ∃ fill, Woven content (spans.map (·.span)) fill (spliceTextSpans content spans) := by
  have hsort := perm_descending (spans.map (·.span))
  have hfits : ∀ span ∈ descending (spans.map (·.span)), span.Fits content.length := by
    intro span hspan
    obtain ⟨matched, hmatched, rfl⟩ := List.mem_map.mp (hsort.mem_iff.mp hspan)
    exact h.fits matched hmatched
  have hpair : (descending (spans.map (·.span))).Pairwise
      fun a b => b.start ≤ a.start ∧ a.Disjoint b :=
    (pairwise_descending _).and
      ((hsort.pairwise_iff fun h => h.symm).mpr (List.pairwise_map.mpr h.disjoint))
  rw [spliceTextSpans_eq]
  exact ⟨_, (Tile.splice_woven hfits hpair).congr fun span => hsort.mem_iff⟩

/-! ## Exact spans -/

/-- The loop finds occurrences only. -/
theorem occursAt_of_mem_textStartsFrom {content oldText : PyStr} (hold : oldText ≠ []) :
    ∀ {fuel : Nat} {found : Option Nat}, (∀ offset ∈ found, content.OccursAt oldText offset) →
      ∀ offset ∈ textStartsFrom content oldText fuel found, content.OccursAt oldText offset
  | 0, _, _, offset, h => by simp [textStartsFrom] at h
  | _ + 1, none, _, offset, h => by simp [textStartsFrom] at h
  | fuel + 1, some first, hfound, offset, h => by
    rcases List.mem_cons.mp h with rfl | h
    · exact hfound offset rfl
    · exact occursAt_of_mem_textStartsFrom hold
        (fun next hnext => (occursAt_of_findFrom hold hnext).1) offset h

/-- The search returns occurrences only. -/
theorem occursAt_of_mem_findTextStarts {content oldText : PyStr} (hold : oldText ≠ [])
    {offset : Nat} (h : offset ∈ findTextStarts content oldText) :
    content.OccursAt oldText offset :=
  occursAt_of_mem_textStartsFrom hold (fun _ hfind => occursAt_of_find hold hfind) offset h

/-- …and finds something where there is something to find. -/
theorem findTextStarts_eq_nil {content oldText : PyStr} (hold : oldText ≠ []) :
    findTextStarts content oldText = [] ↔ ∀ offset, ¬ content.OccursAt oldText offset := by
  constructor
  · intro h
    cases hfind : find oldText content with
    | none => exact find_eq_none hold hfind
    | some first => simp [findTextStarts, hfind, textStartsFrom] at h
  · intro h
    exact List.eq_nil_iff_forall_not_mem.mpr fun offset hmem =>
      h offset (occursAt_of_mem_findTextStarts hold hmem)

/-- An occurrence ends in the text. -/
theorem PyStr.OccursAt.add_length_le {s sub : PyStr} {offset : Nat} (h : s.OccursAt sub offset)
    (hsub : sub ≠ []) : offset + sub.length ≤ s.length := by
  obtain ⟨before, after, rfl, rfl⟩ := (occursAt_iff hsub).mp h
  simp

/-- An exact span covers the one occurrence of its text. -/
theorem exactSpan_eq_ok {content : PyStr} {path : String} {total index : Nat}
    {replacement : EditReplacement} {span : MatchedSpan}
    (h : exactSpan content path total index replacement = .ok span) :
    findTextStarts content (normalizeToLf replacement.oldText) = [span.start] ∧
      span.stop = span.start + (normalizeToLf replacement.oldText).length := by
  obtain ⟨start, hstart, h⟩ := except_bind_eq_ok.mp h
  obtain rfl := Except.ok.inj h
  exact ⟨requireUniqueMatch_eq_ok hstart, rfl⟩

/-- The one occurrence ends in the text. -/
theorem findTextStarts_add_length_le {content oldText : PyStr} (hold : oldText ≠ []) {start : Nat}
    (h : findTextStarts content oldText = [start]) : start + oldText.length ≤ content.length :=
  (occursAt_of_mem_findTextStarts hold (h ▸ List.mem_singleton.mpr rfl)).add_length_le hold

/-- **Exact spans are proper.** -/
theorem matchExactSpans_proper {content : PyStr} {replacements : List EditReplacement}
    {path : String} {spans : List MatchedSpan}
    (hold : ∀ edit ∈ replacements, normalizeToLf edit.oldText ≠ [])
    (h : matchExactSpans content replacements path = .ok spans) :
    ProperSpans spans content.length := by
  refine .of_validated (fun span hspan => ?_) (matchSpans_eq_ok h).2.2
  obtain ⟨i, edit, hedit, hexact⟩ := exists_replacement_of_matchSpans h hspan
  obtain ⟨hstarts, hstop⟩ := exactSpan_eq_ok hexact
  have hle := findTextStarts_add_length_le (hold edit hedit) hstarts
  rw [← hstop] at hle
  exact ⟨by simp [MatchedSpan.span, hstop], hle⟩

/-! ## Fuzzy spans -/

/-- Later lines start later. -/
theorem lineStartOffset_mono (lines : List PyStr) {i j : Nat} (h : i ≤ j) :
    lineStartOffset lines i ≤ lineStartOffset lines j := by
  have hsplit : lines.take j = lines.take i ++ (lines.drop i).take (j - i) := by
    rw [← List.take_append_drop i (lines.take j), List.take_take, Nat.min_eq_left h, List.drop_take]
  rw [lineStartOffset, lineStartOffset, hsplit, List.flatten_append, List.length_append]
  exact Nat.le_add_right _ _

/-- A line ends where the next one starts. -/
theorem lineStartOffset_add_length {lines : List PyStr} {i : Nat} {line : PyStr}
    (h : lines[i]? = some line) :
    lineStartOffset lines i + line.length = lineStartOffset lines (i + 1) := by
  rw [lineStartOffset, lineStartOffset, List.take_add_one, h]
  simp

/-- Lines start in the text. -/
theorem lineStartOffset_le (content : PyStr) (i : Nat) :
    lineStartOffset (terminatedLines content) i ≤ content.length := by
  have h := lineStartOffset_mono (terminatedLines content) (Nat.le_max_left i
    (terminatedLines content).length)
  rwa [lineStartOffset, lineStartOffset, List.take_of_length_le (Nat.le_max_right _ _),
    flatten_terminatedLines] at h

/-- The normalized lines of a replacement's old text. -/
def fuzzyWindow (nfkc : PyStr → PyStr) (replacement : EditReplacement) : List PyStr :=
  (terminatedLines (normalizeToLf replacement.oldText)).map (normalizeForFuzzyMatch nfkc)

/-- A fuzzy span covers the one window of lines that matches. -/
theorem fuzzySpan_eq_ok {nfkc : PyStr → PyStr} {content : PyStr} {path : String}
    {total index : Nat} {replacement : EditReplacement} {span : MatchedSpan}
    (h : fuzzySpan nfkc content path total index replacement = .ok span) :
    ∃ startLine,
      findWindowStarts ((terminatedLines content).map (normalizeForFuzzyMatch nfkc))
        (fuzzyWindow nfkc replacement) = [startLine] ∧
      (span.start, span.stop) = windowCharSpan (terminatedLines content) startLine
        (startLine + (fuzzyWindow nfkc replacement).length - 1)
        (endsWithLf ((fuzzyWindow nfkc replacement).getLastD [])) := by
  obtain ⟨startLine, hstart, h⟩ := except_bind_eq_ok.mp h
  obtain rfl := Except.ok.inj h
  exact ⟨startLine, requireUniqueMatch_eq_ok hstart, rfl⟩

/-- A window that was found lies in the lines and matches there. -/
theorem of_mem_findWindowStarts {normalizedLines window : List PyStr} {start : Nat}
    (h : start ∈ findWindowStarts normalizedLines window) :
    start + window.length ≤ normalizedLines.length ∧
      windowMatchesAt normalizedLines window start := by
  obtain ⟨hrange, hmatch⟩ := List.mem_filter.mp h
  have := List.mem_range.mp hrange
  exact ⟨by omega, hmatch⟩

/-- The span of a window lies in the text. -/
theorem windowCharSpan_fits {content : PyStr} {startLine lastLine start stop : Nat}
    {oldTerminated : Bool} (hle : startLine ≤ lastLine)
    (hlast : lastLine < (terminatedLines content).length)
    (h : (start, stop)
      = windowCharSpan (terminatedLines content) startLine lastLine oldTerminated) :
    start ≤ stop ∧ stop ≤ content.length := by
  have hline : (terminatedLines content)[lastLine]? = some (terminatedLines content)[lastLine] :=
    List.getElem?_eq_getElem hlast
  have hmono := lineStartOffset_mono (terminatedLines content) hle
  have hnext := lineStartOffset_add_length hline
  have htotal := lineStartOffset_le content (lastLine + 1)
  have hne := (isLine_of_mem (List.getElem_mem hlast)).ne_nil
  have hpos := List.length_pos_iff.mpr hne
  rw [windowCharSpan, List.getD_eq_getElem?_getD, hline, Option.getD_some] at h
  obtain ⟨rfl, rfl⟩ := Prod.mk.inj h
  split <;> omega

/-- The characters of the only window of an edit's old text. -/
theorem windowSpan_fits {nfkc : PyStr → PyStr} {content : PyStr} {edit : EditReplacement}
    {startLine start stop : Nat} (hold : normalizeToLf edit.oldText ≠ [])
    (hstarts : findWindowStarts ((terminatedLines content).map (normalizeForFuzzyMatch nfkc))
      (fuzzyWindow nfkc edit) = [startLine])
    (hchars : (start, stop) = windowCharSpan (terminatedLines content) startLine
      (startLine + (fuzzyWindow nfkc edit).length - 1)
      (endsWithLf ((fuzzyWindow nfkc edit).getLastD []))) :
    start ≤ stop ∧ stop ≤ content.length := by
  have hstart := (of_mem_findWindowStarts (hstarts ▸ List.mem_singleton.mpr rfl)).1
  have hwindow : 0 < (fuzzyWindow nfkc edit).length := by
    rw [fuzzyWindow, List.length_map]
    exact List.length_pos_iff.mpr (terminatedLines_ne_nil hold)
  rw [List.length_map] at hstart
  exact windowCharSpan_fits (by omega) (by omega) hchars

/-- **Fuzzy spans are proper.** -/
theorem matchFuzzySpans_proper {nfkc : PyStr → PyStr} {content : PyStr}
    {replacements : List EditReplacement} {path : String} {spans : List MatchedSpan}
    (hold : ∀ edit ∈ replacements, normalizeToLf edit.oldText ≠ [])
    (h : matchFuzzySpans nfkc content replacements path = .ok spans) :
    ProperSpans spans content.length := by
  refine .of_validated (fun span hspan => ?_) (matchSpans_eq_ok h).2.2
  obtain ⟨i, edit, hedit, hfuzzy⟩ := exists_replacement_of_matchSpans h hspan
  obtain ⟨startLine, hstarts, hchars⟩ := fuzzySpan_eq_ok hfuzzy
  exact windowSpan_fits (hold edit hedit) hstarts hchars

/-! ## The spans a request is served with -/

/-- The exact spans, or the fuzzy ones when some text has no exact match. -/
def servedSpans (nfkc : PyStr → PyStr) (content : PyStr) (replacements : List EditReplacement)
    (path : String) : Except EditError (List MatchedSpan) :=
  match matchExactSpans content replacements path with
  | .error (.notFound _ _ _) => matchFuzzySpans nfkc content replacements path
  | result => result

/-- The first check of a request passed. -/
theorem validateNonEmptyOldText_eq_ok {replacements : List EditReplacement} {path : String}
    (h : validateNonEmptyOldText replacements path = .ok ()) :
    ∀ edit ∈ replacements, edit.oldText ≠ [] := by
  intro edit hedit hempty
  obtain ⟨i, hi, rfl⟩ := List.getElem_of_mem hedit
  rw [validateNonEmptyOldText] at h
  cases hfound : replacements.zipIdx.find? fun x => decide (x.1.oldText = []) with
  | some found => simp [hfound] at h
  | none =>
    have hmem : (replacements[i], i) ∈ replacements.zipIdx := by
      simp [List.mem_zipIdx_iff_getElem?]
    simpa [hempty] using List.find?_eq_none.mp hfound _ hmem

/-- The last check of a request passed. -/
theorem buildApplication_eq_ok {content newContent : PyStr} {total : Nat} {path : String}
    {application : ReplacementApplication}
    (h : buildApplication content newContent total path = .ok application) :
    application = { baseContent := content, newContent } := by
  rw [buildApplication] at h
  split at h
  · simp at h
  · exact (Except.ok.inj h).symm

/-- **A request that succeeds** was served with proper spans, and its result is their splice. -/
theorem applyReplacementsWithFallback_eq_ok {nfkc : PyStr → PyStr} {content : PyStr}
    {replacements : List EditReplacement} {path : String} {application : ReplacementApplication}
    (h : applyReplacementsWithFallback nfkc content replacements path = .ok application) :
    (∀ edit ∈ replacements, normalizeToLf edit.oldText ≠ []) ∧
      ∃ spans, servedSpans nfkc content replacements path = .ok spans ∧
        ProperSpans spans content.length ∧
        application = { baseContent := content, newContent := spliceTextSpans content spans } := by
  obtain ⟨_, hvalid, h⟩ := except_bind_eq_ok.mp h
  have hold : ∀ edit ∈ replacements, normalizeToLf edit.oldText ≠ [] := fun edit hedit =>
    normalizeToLf_ne_nil (validateNonEmptyOldText_eq_ok hvalid edit hedit)
  refine ⟨hold, ?_⟩
  cases hexact : matchExactSpans content replacements path with
  | ok spans =>
    have happly : applyExactReplacements content replacements path
        = buildApplication content (spliceTextSpans content spans) replacements.length path := by
      rw [applyExactReplacements, hexact]
      rfl
    rw [happly] at h
    refine ⟨spans, by rw [servedSpans, hexact], matchExactSpans_proper hold hexact, ?_⟩
    split at h
    · next hbuild =>
      rw [buildApplication] at hbuild
      split at hbuild <;> simp at hbuild
    · exact buildApplication_eq_ok h
  | error e =>
    have happly : applyExactReplacements content replacements path = .error e := by
      rw [applyExactReplacements, hexact]
      rfl
    rw [happly] at h
    split at h
    · next heq =>
      obtain rfl := Except.error.inj heq
      obtain ⟨spans, hfuzzy, h⟩ := except_bind_eq_ok.mp h
      exact ⟨spans, by rw [servedSpans, hexact]; exact hfuzzy, matchFuzzySpans_proper hold hfuzzy,
        buildApplication_eq_ok h⟩
    · simp at h

end Tile
