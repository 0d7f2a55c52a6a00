import Tile.Tools.EditMatchers

/-!
# Tools/EditMatching — where a uniquely matching edit is applied

One edit without an exact match sends all edits of a request through whole-line matching.  An edit
whose text occurs exactly once is then **still applied at that occurrence if the occurrence covers
whole lines, and only then** (`sibling_edit_iff`): whole-line matching cannot see any other one.
-/

namespace Tile

open PyStr

/-- What whole-line matching relies on: NFKC maps a newline to itself and makes no other. -/
structure NewlineStable (nfkc : PyStr → PyStr) : Prop where
  append_lf : ∀ text, lf ∉ text → nfkc (text ++ [lf]) = nfkc text ++ [lf]
  no_lf : ∀ text, lf ∉ text → lf ∉ nfkc text

/-! ## Normalizing one line -/

theorem substitute_append (matched : CodePoint → Bool) (c : CodePoint) (s t : PyStr) :
    substitute matched c (s ++ t) = substitute matched c s ++ substitute matched c t :=
  List.map_append

theorem lf_mem_substitute {matched : CodePoint → Bool} {c : CodePoint} (hc : c ≠ lf) {s : PyStr}
    (h : lf ∈ substitute matched c s) : lf ∈ s := by
  obtain ⟨d, hd, heq⟩ := List.mem_map.mp h
  split at heq
  · exact absurd heq hc
  · exact heq ▸ hd

theorem split_of_not_mem {s : PyStr} (h : lf ∉ s) : split lf s = [s] := by
  induction s with
  | nil => rfl
  | cons c rest ih =>
    obtain ⟨hc, hrest⟩ : lf ≠ c ∧ lf ∉ rest := by simpa using h
    rw [split, if_neg (Ne.symm hc), ih hrest]

theorem split_append_lf {s : PyStr} (h : lf ∉ s) : split lf (s ++ [lf]) = [s, []] := by
  induction s with
  | nil => rfl
  | cons c rest ih =>
    obtain ⟨hc, hrest⟩ : lf ≠ c ∧ lf ∉ rest := by simpa using h
    rw [List.cons_append, split, if_neg (Ne.symm hc), ih hrest]

theorem rstrip_subset {s : PyStr} {c : CodePoint} (h : c ∈ rstrip s) : c ∈ s := by
  rw [rstrip, List.mem_reverse] at h
  exact List.mem_reverse.mp (List.dropWhile_sublist _ |>.subset h)

section Normalize

variable {nfkc : PyStr → PyStr} (hnfkc : NewlineStable nfkc) {body : PyStr} (hbody : lf ∉ body)
include hnfkc hbody

theorem normalize_of_not_mem : lf ∉ normalizeForFuzzyMatch nfkc body := by
  intro h
  have hclean := hnfkc.no_lf body hbody
  have hstrip := lf_mem_substitute (by decide) (lf_mem_substitute (by decide)
    (lf_mem_substitute (by decide) (lf_mem_substitute (by decide) h)))
  rw [stripTrailingLineWhitespace, split_of_not_mem hclean] at hstrip
  exact hclean (rstrip_subset hstrip)

theorem normalize_append_lf :
    normalizeForFuzzyMatch nfkc (body ++ [lf]) = normalizeForFuzzyMatch nfkc body ++ [lf] := by
  have hclean := hnfkc.no_lf body hbody
  have hstrip : stripTrailingLineWhitespace (nfkc body ++ [lf])
      = stripTrailingLineWhitespace (nfkc body) ++ [lf] := by
    rw [stripTrailingLineWhitespace, stripTrailingLineWhitespace, split_append_lf hclean,
      split_of_not_mem hclean]
    simp [join, rstrip]
  rw [normalizeForFuzzyMatch, hnfkc.append_lf body hbody, hstrip]
  simp only [substitute_append]
  rfl

end Normalize

/-- **Normalization keeps a line's terminator.** -/
theorem endsWithLf_normalize {nfkc : PyStr → PyStr} (hnfkc : NewlineStable nfkc) {line : PyStr}
    (h : IsLine line) : endsWithLf (normalizeForFuzzyMatch nfkc line) = endsWithLf line := by
  obtain ⟨body, hbody, rfl | ⟨rfl, -⟩⟩ := h
  · rw [normalize_append_lf hnfkc hbody, endsWithLf_append_lf, endsWithLf_append_lf]
  · rw [endsWithLf_of_not_mem (normalize_of_not_mem hnfkc hbody), endsWithLf_of_not_mem hbody]

/-- A window's last line matches the same line, with or without a newline after it. -/
theorem lastWindowLineMatches_normalize {nfkc : PyStr → PyStr} (hnfkc : NewlineStable nfkc)
    {fileLine oldLine : PyStr} (hline : IsLine oldLine)
    (h : fileLine = oldLine ∨ fileLine = oldLine ++ [lf] ∧ endsWithLf oldLine = false) :
    lastWindowLineMatches (normalizeForFuzzyMatch nfkc fileLine)
      (normalizeForFuzzyMatch nfkc oldLine) := by
  rw [lastWindowLineMatches, endsWithLf_normalize hnfkc hline]
  rcases h with rfl | ⟨rfl, hopen⟩
  · split <;> simp
  · obtain ⟨body, hbody, rfl | ⟨rfl, -⟩⟩ := hline
    · simp at hopen
    · rw [hopen, normalize_append_lf hnfkc hbody]
      simp

/-! ## Whole lines -/

/-- The occurrence of `oldText` at this offset starts where a line starts and stops where one
stops, with or without its newline. -/
def CoversLines (content oldText : PyStr) (offset : Nat) : Prop :=
  (offset = 0 ∨ endsWithLf (content.take offset)) ∧
    (offset + oldText.length = content.length ∨
      content[offset + oldText.length]? = some lf ∨ endsWithLf oldText)

theorem terminatedLines_append_of_endsWithLf {before : PyStr} (after : PyStr)
    (h : before = [] ∨ endsWithLf before) :
    terminatedLines (before ++ after) = terminatedLines before ++ terminatedLines after := by
  rcases h with rfl | h
  · rfl
  · obtain ⟨body, rfl⟩ := endsWithLf_iff.mp h
    rw [List.append_assoc]
    exact terminatedLines_append body after

/-- Terminating a text terminates its last line. -/
theorem terminatedLines_terminate {text : PyStr} (h : text ≠ []) (hopen : endsWithLf text = false) :
    terminatedLines (text ++ [lf]) = (terminatedLines text).dropLast
      ++ [(terminatedLines text).getLastD [] ++ [lf]] := by
  induction text with
  | nil => exact absurd rfl h
  | cons c rest ih =>
    cases rest with
    | nil =>
      have hc : c ≠ lf := fun hc => by simp [hc, endsWithLf] at hopen
      simp [terminatedLines_cons hc, terminatedLines_lf]
    | cons d rest =>
      have hopen' : endsWithLf (d :: rest) = false := by
        simpa [endsWithLf] using hopen
      obtain ⟨line, lines, hlines⟩ :=
        List.exists_cons_of_ne_nil (terminatedLines_ne_nil (List.cons_ne_nil d rest))
      have ih := ih (by simp) hopen'
      rw [hlines] at ih
      by_cases hc : c = lf
      · rw [hc, List.cons_append, terminatedLines_lf, terminatedLines_lf, ih, hlines]
        simp
      · rw [List.cons_append, terminatedLines_cons hc, terminatedLines_cons hc, ih, hlines]
        cases lines <;> simp

/-- **The lines of an occurrence that covers whole lines.** -/
theorem lines_of_coversLines {content oldText : PyStr} {offset : Nat} (hold : oldText ≠ [])
    (hoccurs : content.OccursAt oldText offset) (hcovers : CoversLines content oldText offset) :
    ∃ pre mid post, terminatedLines content = pre ++ mid ++ post ∧ pre.flatten.length = offset ∧
      mid.length = (terminatedLines oldText).length ∧
      mid.dropLast = (terminatedLines oldText).dropLast ∧
      (mid = terminatedLines oldText ∨
        mid.getLastD [] = (terminatedLines oldText).getLastD [] ++ [lf] ∧
          endsWithLf oldText = false) := by
  obtain ⟨before, after, rfl, rfl⟩ := (occursAt_iff hold).mp hoccurs
  obtain ⟨hstart, hstop⟩ := hcovers
  have hbefore : before = [] ∨ endsWithLf before := by
    simpa [List.append_assoc] using hstart
  have hlines := terminatedLines_append_of_endsWithLf (oldText ++ after) hbefore
  rw [← List.append_assoc] at hlines
  by_cases hends : endsWithLf oldText
  · refine ⟨terminatedLines before, terminatedLines oldText, terminatedLines after, ?_, by simp,
      rfl, rfl, .inl rfl⟩
    rw [hlines, terminatedLines_append_of_endsWithLf after (.inr hends), List.append_assoc]
  · have hopen : endsWithLf oldText = false := by simpa using hends
    cases after with
    | nil =>
      exact ⟨terminatedLines before, terminatedLines oldText, [], by simpa using hlines, by simp,
        rfl, rfl, .inl rfl⟩
    | cons c after =>
      obtain rfl : c = lf := by
        simpa [hopen, List.getElem?_append_right] using hstop
      have hne := terminatedLines_ne_nil hold
      refine ⟨terminatedLines before, terminatedLines (oldText ++ [lf]), terminatedLines after, ?_,
        by simp, ?_, ?_, .inr ⟨?_, hopen⟩⟩
      · rw [hlines, terminatedLines_append, List.append_assoc]
      all_goals rw [terminatedLines_terminate hold hopen]
      · have := List.length_pos_iff.mpr hne
        simp
        omega
      · simp
      · simp

theorem getLastD_eq_getD {α : Type} (items : List α) (d : α) :
    items.getLastD d = items.getD (items.length - 1) d := by
  rw [List.getLastD_eq_getLast?, List.getLast?_eq_getElem?, List.getD_eq_getElem?_getD]

theorem getLastD_eq_getLast {α : Type} {items : List α} (h : items ≠ []) (d : α) :
    items.getLastD d = items.getLast h := by
  rw [List.getLastD_eq_getLast?, List.getLast?_eq_some_getLast h, Option.getD_some]

theorem dropLast_append_getLastD {α : Type} {items : List α} (h : items ≠ []) (d : α) :
    items.dropLast ++ [items.getLastD d] = items := by
  rw [getLastD_eq_getLast h, List.dropLast_append_getLast h]

/-- A window of lines that agree up to the terminator of the last one matches where they stand. -/
theorem mem_findWindowStarts {nfkc : PyStr → PyStr} (hnfkc : NewlineStable nfkc)
    {pre mid post old : List PyStr} (hold : old ≠ []) (hlines : ∀ line ∈ old, IsLine line)
    (hlength : mid.length = old.length) (hhead : mid.dropLast = old.dropLast)
    (hlast : mid.getLastD [] = old.getLastD [] ∨
      mid.getLastD [] = old.getLastD [] ++ [lf] ∧ endsWithLf (old.getLastD []) = false) :
    pre.length ∈ findWindowStarts ((pre ++ mid ++ post).map (normalizeForFuzzyMatch nfkc))
      (old.map (normalizeForFuzzyMatch nfkc)) := by
  have hpos := List.length_pos_iff.mpr hold
  have hmem : old.getLastD [] ∈ old := getLastD_eq_getLast hold [] ▸ List.getLast_mem hold
  have hget : ∀ {items : List PyStr}, items ≠ [] →
      (items.map (normalizeForFuzzyMatch nfkc)).getLastD []
        = normalizeForFuzzyMatch nfkc (items.getLastD []) := by
    intro items hitems
    rw [getLastD_eq_getLast hitems, getLastD_eq_getLast (by simpa using hitems), List.getLast_map]
  have hmid : mid ≠ [] := List.length_pos_iff.mp (hlength ▸ hpos)
  refine List.mem_filter.mpr ⟨List.mem_range.mpr (by simp; omega), ?_⟩
  have hheadLength : (old.map (normalizeForFuzzyMatch nfkc)).dropLast.length = mid.length - 1 := by
    simp [hlength]
  have hdrop : ((pre ++ mid ++ post).map (normalizeForFuzzyMatch nfkc)).drop pre.length
      = mid.map (normalizeForFuzzyMatch nfkc) ++ post.map (normalizeForFuzzyMatch nfkc) := by
    simp [List.append_assoc]
  have hline : ((pre ++ mid ++ post).map (normalizeForFuzzyMatch nfkc)).getD
      (pre.length + (mid.length - 1)) [] = normalizeForFuzzyMatch nfkc (mid.getLastD []) := by
    rw [← hget hmid, getLastD_eq_getD, List.getD_eq_getElem?_getD, List.getD_eq_getElem?_getD,
      ← List.getElem?_drop, hdrop, List.getElem?_append_left (by simp; omega), List.length_map]
  rw [windowMatchesAt, hheadLength, hline, hget hold, hdrop, Bool.and_eq_true]
  refine ⟨?_, lastWindowLineMatches_normalize hnfkc (hlines _ hmem) hlast⟩
  rw [List.take_append_of_le_length (by simp), ← List.map_dropLast, ← hhead, beq_iff_eq,
    ← List.map_take, List.dropLast_eq_take]

theorem endsWithLf_lines {lines : List PyStr} (h : lines ≠ []) (hlast : lines.getLastD [] ≠ []) :
    endsWithLf lines.flatten = endsWithLf (lines.getLastD []) := by
  conv => lhs; rw [← dropLast_append_getLastD h []]
  rw [List.flatten_append, List.flatten_singleton, endsWithLf_append hlast]

theorem windowCharSpan_append {pre mid post : List PyStr} (hmid : mid ≠ [])
    (hlast : mid.getLastD [] ≠ []) (oldTerminated : Bool) :
    windowCharSpan (pre ++ mid ++ post) pre.length (pre.length + mid.length - 1) oldTerminated
      = (pre.flatten.length, if oldTerminated = false ∧ endsWithLf mid.flatten
          then (pre ++ mid).flatten.length - 1 else (pre ++ mid).flatten.length) := by
  have hpos := List.length_pos_iff.mpr hmid
  have hline : (pre ++ mid ++ post)[pre.length + mid.length - 1]? = some (mid.getLastD []) := by
    rw [List.append_assoc, List.getElem?_append_right (by omega),
      List.getElem?_append_left (by omega), getLastD_eq_getD, List.getD_eq_getElem?_getD,
      show pre.length + mid.length - 1 - pre.length = mid.length - 1 by omega,
      List.getElem?_eq_getElem (by omega)]
    rfl
  have hstop : lineStartOffset (pre ++ mid ++ post) (pre.length + mid.length - 1)
      + (mid.getLastD []).length = (pre ++ mid).flatten.length := by
    rw [lineStartOffset_add_length hline, lineStartOffset,
      show pre.length + mid.length - 1 + 1 = (pre ++ mid).length by simp; omega, List.take_left]
  have hstart : lineStartOffset (pre ++ mid ++ post) pre.length = pre.flatten.length := by
    rw [lineStartOffset, List.append_assoc, List.take_left]
  rw [windowCharSpan, List.getD_eq_getElem?_getD, hline, Option.getD_some, hstop, hstart,
    endsWithLf_lines hmid hlast]
  cases oldTerminated <;> simp

/-- The window of an occurrence that covers whole lines maps to that occurrence. -/
theorem windowCharSpan_of_lines {pre mid post old : List PyStr} {oldText : PyStr}
    (hold : old ≠ []) (hlines : ∀ line ∈ old, IsLine line) (hflatten : old.flatten = oldText)
    (hlength : mid.length = old.length) (hhead : mid.dropLast = old.dropLast)
    (hlast : mid = old ∨
      mid.getLastD [] = old.getLastD [] ++ [lf] ∧ endsWithLf (old.getLastD []) = false) :
    windowCharSpan (pre ++ mid ++ post) pre.length (pre.length + old.length - 1)
        (endsWithLf (old.getLastD []))
      = (pre.flatten.length, pre.flatten.length + oldText.length) := by
  have hmid : mid ≠ [] := List.length_pos_iff.mp (hlength ▸ List.length_pos_iff.mpr hold)
  rcases hlast with rfl | ⟨hterminated, hopen⟩
  · have hne : mid.getLastD [] ≠ [] :=
      (hlines _ (getLastD_eq_getLast hold [] ▸ List.getLast_mem hold)).ne_nil
    rw [windowCharSpan_append hmid hne, endsWithLf_lines hmid hne, List.flatten_append,
      List.length_append, hflatten]
    cases endsWithLf (mid.getLastD []) <;> simp
  · have hmidFlatten : mid.flatten = oldText ++ [lf] := by
      calc mid.flatten = (old.dropLast ++ [old.getLastD [] ++ [lf]]).flatten := by
            rw [← hhead, ← hterminated, dropLast_append_getLastD hmid]
        _ = (old.dropLast ++ [old.getLastD []]).flatten ++ [lf] := by simp
        _ = oldText ++ [lf] := by rw [dropLast_append_getLastD hold, hflatten]
    rw [← hlength, windowCharSpan_append hmid (by rw [hterminated]; simp), hopen,
      List.flatten_append, hmidFlatten]
    simp

theorem endsWithLf_getLastD {text : PyStr} (h : text ≠ []) :
    endsWithLf ((terminatedLines text).getLastD []) = endsWithLf text := by
  have hne := terminatedLines_ne_nil h
  have hlast : (terminatedLines text).getLastD [] ≠ [] :=
    (isLine_of_mem (getLastD_eq_getLast hne [] ▸ List.getLast_mem hne)).ne_nil
  rw [← endsWithLf_lines hne hlast, flatten_terminatedLines]

theorem take_lineStartOffset (content : PyStr) (k : Nat) :
    content.take (lineStartOffset (terminatedLines content) k)
      = ((terminatedLines content).take k).flatten := by
  have hsplit : content = ((terminatedLines content).take k).flatten
      ++ ((terminatedLines content).drop k).flatten := by
    rw [← List.flatten_append, List.take_append_drop, flatten_terminatedLines]
  calc content.take (lineStartOffset (terminatedLines content) k)
      = (((terminatedLines content).take k).flatten
          ++ ((terminatedLines content).drop k).flatten).take
            ((terminatedLines content).take k).flatten.length := by rw [← hsplit]; rfl
    _ = ((terminatedLines content).take k).flatten := List.take_left

theorem endsWithLf_take {content line : PyStr} {k : Nat}
    (hline : (terminatedLines content)[k]? = some line) (hends : endsWithLf line) :
    endsWithLf (content.take (lineStartOffset (terminatedLines content) (k + 1))) := by
  have hne := (isLine_of_mem (List.mem_of_getElem? hline)).ne_nil
  rw [take_lineStartOffset, List.take_add_one, hline, Option.toList_some, List.flatten_append,
    List.flatten_singleton, endsWithLf_append hne]
  exact hends

/-- Whether an old text claims its last newline can be read off its window. -/
theorem endsWithLf_fuzzyWindow {nfkc : PyStr → PyStr} (hnfkc : NewlineStable nfkc)
    {edit : EditReplacement} (hold : normalizeToLf edit.oldText ≠ []) :
    endsWithLf ((fuzzyWindow nfkc edit).getLastD [])
      = endsWithLf ((terminatedLines (normalizeToLf edit.oldText)).getLastD []) := by
  have hne := terminatedLines_ne_nil hold
  rw [fuzzyWindow, getLastD_eq_getLast (by simpa using hne), List.getLast_map,
    ← getLastD_eq_getLast hne [], endsWithLf_normalize hnfkc]
  exact isLine_of_mem (getLastD_eq_getLast hne [] ▸ List.getLast_mem hne)

/-! ## The fuzzy span of an exact occurrence -/

section FuzzySpan

variable {nfkc : PyStr → PyStr} {content : PyStr} {path : String} {total index offset : Nat}
  {edit : EditReplacement} {span : MatchedSpan}

/-- An occurrence that covers whole lines is where the edit is applied. -/
theorem fuzzySpan_of_coversLines (hnfkc : NewlineStable nfkc)
    (hold : normalizeToLf edit.oldText ≠ [])
    (hspan : fuzzySpan nfkc content path total index edit = .ok span)
    (hoccurs : content.OccursAt (normalizeToLf edit.oldText) offset)
    (hcovers : CoversLines content (normalizeToLf edit.oldText) offset) :
    span.start = offset ∧ span.stop = offset + (normalizeToLf edit.oldText).length := by
  obtain ⟨startLine, hstarts, hchars⟩ := fuzzySpan_eq_ok hspan
  obtain ⟨pre, mid, post, hlines, rfl, hlength, hhead, hlast⟩ :=
    lines_of_coversLines hold hoccurs hcovers
  have hne := terminatedLines_ne_nil hold
  rw [← endsWithLf_getLastD hold] at hlast
  have hmem := @mem_findWindowStarts nfkc hnfkc pre mid post _ hne
    (fun _ => isLine_of_mem) hlength hhead (hlast.imp_left fun h => by rw [h])
  rw [← hlines] at hmem
  obtain rfl : pre.length = startLine := List.mem_singleton.mp (hstarts ▸ hmem)
  rw [endsWithLf_fuzzyWindow hnfkc hold, fuzzyWindow, List.length_map, hlines,
    windowCharSpan_of_lines hne (fun _ => isLine_of_mem) (flatten_terminatedLines _) hlength hhead
      hlast] at hchars
  exact Prod.mk.inj hchars

/-- Whole-line matching only ever returns spans that cover whole lines. -/
theorem coversLines_of_fuzzySpan (hold : normalizeToLf edit.oldText ≠ [])
    (hspan : fuzzySpan nfkc content path total index edit = .ok span)
    (hoccurs : content.OccursAt (normalizeToLf edit.oldText) span.start)
    (hstop : span.stop = span.start + (normalizeToLf edit.oldText).length) :
    CoversLines content (normalizeToLf edit.oldText) span.start := by
  obtain ⟨startLine, hstarts, hchars⟩ := fuzzySpan_eq_ok hspan
  have hrange := (of_mem_findWindowStarts (hstarts ▸ List.mem_singleton.mpr rfl)).1
  rw [List.length_map] at hrange
  have hpos : 0 < (fuzzyWindow nfkc edit).length := by
    rw [fuzzyWindow, List.length_map]
    exact List.length_pos_iff.mpr (terminatedLines_ne_nil hold)
  set last := startLine + (fuzzyWindow nfkc edit).length - 1 with hlast
  have hlastLt : last < (terminatedLines content).length := by omega
  have hline : (terminatedLines content)[last]? = some (terminatedLines content)[last] :=
    List.getElem?_eq_getElem hlastLt
  rw [windowCharSpan, List.getD_eq_getElem?_getD, hline, Option.getD_some,
    lineStartOffset_add_length hline] at hchars
  obtain ⟨hstartEq, hstopEq⟩ := Prod.mk.inj hchars
  refine ⟨?start, ?stop⟩
  case start =>
    rw [hstartEq]
    cases hstartLine : startLine with
    | zero => exact .inl rfl
    | succ k =>
      have hprevious : (terminatedLines content)[k]? = some (terminatedLines content)[k] :=
        List.getElem?_eq_getElem (by omega)
      exact .inr (endsWithLf_take hprevious (endsWithLf_of_lt hprevious (by omega)))
  case stop =>
    rw [← hstop, hstopEq]
    split
    · next hopen =>
      -- the newline of the last matched line stays outside the span
      obtain ⟨body, hbody⟩ := endsWithLf_iff.mp
        (endsWithLf_take hline (Bool.and_eq_true_iff.mp hopen).2)
      have hlength := congrArg List.length hbody
      rw [List.length_take_of_le (lineStartOffset_le _ _), List.length_append] at hlength
      refine .inr (.inl ?_)
      rw [hlength, List.length_singleton, Nat.add_sub_cancel]
      have hget := congrArg (·[body.length]?) hbody
      simpa [List.getElem?_take, hlength] using hget
    · rcases Nat.lt_or_ge (last + 1) (terminatedLines content).length with hlt | hge
      · refine .inr (.inr ?_)
        have hends := endsWithLf_take hline (endsWithLf_of_lt hline hlt)
        rw [if_neg ‹_›] at hstopEq
        obtain ⟨before, after, hcontent, hbefore⟩ := (occursAt_iff hold).mp hoccurs
        rw [← hstopEq, hstop, ← hbefore, hcontent, ← List.length_append, List.take_left,
          endsWithLf_append hold] at hends
        exact hends
      · refine .inl ?_
        rw [lineStartOffset, List.take_of_length_le hge, flatten_terminatedLines]

end FuzzySpan

/-! ## Why a request falls back -/

/-- The exact path raises a lookup error only over a text that does not occur at all. -/
theorem exists_not_occursAt {content : PyStr} {replacements : List EditReplacement}
    {path path' : String} {index total : Nat}
    (h : matchExactSpans content replacements path = .error (.notFound path' index total)) :
    ∃ edit ∈ replacements, findTextStarts content (normalizeToLf edit.oldText) = [] :=
  (Matcher.FirstMissing.of_matchSpans (m := exactMatcher content) h).exists_mem

/-! ## Sibling edits -/

/-- The text occurs at this offset and at no other. -/
def OccursOnce (content oldText : PyStr) (offset : Nat) : Prop :=
  ∀ other, content.OccursAt oldText other ↔ other = offset

theorem OccursOnce.of_forall_lt {content text : PyStr} {offset : Nat} (htext : text ≠ [])
    (hlt : offset < content.length)
    (h : ∀ other < content.length, content.OccursAt text other ↔ other = offset) :
    OccursOnce content text offset := fun other => by
  rcases Nat.lt_or_ge other content.length with hother | hother
  · exact h other hother
  · refine iff_of_false (fun hoccurs => ?_) (by omega)
    obtain ⟨before, after, rfl, rfl⟩ := (occursAt_iff htext).mp hoccurs
    have hpos := List.length_pos_iff.mpr htext
    simp only [List.length_append] at hother
    omega

/-- Every edit whose text occurs exactly once is applied at that occurrence. -/
def AppliedAtOccurrences (content : PyStr) (replacements : List EditReplacement)
    (spans : List MatchedSpan) : Prop :=
  ∀ (i : Nat) (edit : EditReplacement) (offset : Nat), replacements[i]? = some edit →
    OccursOnce content (normalizeToLf edit.oldText) offset → ∃ span, spans[i]? = some span ∧
      span.start = offset ∧ span.stop = offset + (normalizeToLf edit.oldText).length

/-- **A sibling edit may relocate an exact match.**  On a request that succeeds, every edit whose
text occurs exactly once is applied there, if and only if every text of the request occurs (then the
exact path serves it) or every such occurrence covers whole lines. -/
theorem sibling_edit_iff {nfkc : PyStr → PyStr} (hnfkc : NewlineStable nfkc) {content : PyStr}
    {replacements : List EditReplacement} {path : String} {application : ReplacementApplication}
    (h : applyReplacementsWithFallback nfkc content replacements path = .ok application) :
    ∃ spans, servedSpans nfkc content replacements path = .ok spans ∧
      application.newContent = spliceTextSpans content spans ∧
      (AppliedAtOccurrences content replacements spans ↔
        (∀ edit ∈ replacements, ∃ offset, content.OccursAt (normalizeToLf edit.oldText) offset) ∨
          ∀ edit ∈ replacements, ∀ offset,
            OccursOnce content (normalizeToLf edit.oldText) offset →
              CoversLines content (normalizeToLf edit.oldText) offset) := by
  obtain ⟨hold, spans, hserved, -, rfl⟩ := applyReplacementsWithFallback_eq_ok h
  refine ⟨spans, hserved, rfl, ?_⟩
  rw [servedSpans] at hserved
  split at hserved
  · next hexact =>
    obtain ⟨missing, hmissing, hnone⟩ := exists_not_occursAt hexact
    have hnever := (findTextStarts_eq_nil (hold missing hmissing)).mp hnone
    obtain ⟨hlength, hspans, -⟩ := matchSpans_eq_ok hserved
    constructor
    · refine fun happlied => .inr fun edit hedit offset honce => ?_
      obtain ⟨i, hi, rfl⟩ := List.getElem_of_mem hedit
      have hget : replacements[i]? = some replacements[i] := List.getElem?_eq_getElem hi
      obtain ⟨span, hspan, rfl, hstop⟩ := happlied i _ offset hget honce
      exact coversLines_of_fuzzySpan (hold _ hedit) (hspans i _ span hget hspan)
        ((honce _).mpr rfl) hstop
    · rintro (hall | hcovers) i edit offset hget honce
      · exact absurd (hall missing hmissing) (not_exists.mpr hnever)
      · have hi : i < spans.length := hlength ▸ (List.getElem?_eq_some_iff.mp hget).1
        have hedit := List.mem_of_getElem? hget
        exact ⟨spans[i], List.getElem?_eq_getElem hi, fuzzySpan_of_coversLines hnfkc (hold _ hedit)
          (hspans i _ _ hget (List.getElem?_eq_getElem hi)) ((honce _).mpr rfl)
          (hcovers edit hedit offset honce)⟩
  · obtain ⟨hlength, hspans, -⟩ := matchSpans_eq_ok hserved
    have hexact : ∀ (i : Nat) (edit : EditReplacement), replacements[i]? = some edit →
        ∃ span : MatchedSpan, spans[i]? = some span ∧
          content.OccursAt (normalizeToLf edit.oldText) span.start ∧
          span.stop = span.start + (normalizeToLf edit.oldText).length := by
      intro i edit hget
      have hi : i < spans.length := hlength ▸ (List.getElem?_eq_some_iff.mp hget).1
      obtain ⟨hstarts, hstop⟩ :=
        exactSpan_eq_ok (hspans i edit _ hget (List.getElem?_eq_getElem hi))
      exact ⟨spans[i], List.getElem?_eq_getElem hi, occursAt_of_mem_findTextStarts
        (hold _ (List.mem_of_getElem? hget)) (hstarts ▸ List.mem_singleton.mpr rfl), hstop⟩
    refine iff_of_true (fun i edit offset hget honce => ?_) (.inl fun edit hedit => ?_)
    · obtain ⟨span, hspan, hoccurs, hstop⟩ := hexact i edit hget
      obtain rfl := (honce _).mp hoccurs
      exact ⟨span, hspan, rfl, hstop⟩
    · obtain ⟨i, hi, rfl⟩ := List.getElem_of_mem hedit
      obtain ⟨span, -, hoccurs, -⟩ := hexact i _ (List.getElem?_eq_getElem hi)
      exact ⟨span.start, hoccurs⟩

/-- A text with the words `a-b` in its first line, and `a–b`, with an en dash, as its second. -/
def dashes : PyStr := .ofString "x = a-b\na\u2013b\n\u201cq\u201d\n"

/-- An edit that matches exactly, next to one that does not: its quotes differ. -/
def siblings : List EditReplacement :=
  [⟨.ofString "a-b", .ofString "c"⟩, ⟨.ofString "\"q\"", .ofString "r"⟩]

theorem newlineStable_id : NewlineStable id := ⟨fun _ _ => rfl, fun _ => id⟩

theorem sibling_edit_iff_dashes :
    ∃ spans, servedSpans id dashes siblings "notes.txt" = .ok spans ∧
      (PyStr.ofString "x = a-b\nc\nr\n") = spliceTextSpans dashes spans ∧
      (AppliedAtOccurrences dashes siblings spans ↔
        (∀ edit ∈ siblings, ∃ offset, dashes.OccursAt (normalizeToLf edit.oldText) offset) ∨
          ∀ edit ∈ siblings, ∀ offset, OccursOnce dashes (normalizeToLf edit.oldText) offset →
            CoversLines dashes (normalizeToLf edit.oldText) offset) :=
  have happlication : applyReplacementsWithFallback id dashes siblings "notes.txt" =
      .ok ⟨dashes, .ofString "x = a-b\nc\nr\n"⟩ := by decide +kernel
  sibling_edit_iff newlineStable_id happlication

theorem occursOnce_dashes : OccursOnce dashes (normalizeToLf (.ofString "a-b")) 4 :=
  .of_forall_lt (by decide +kernel) (by decide +kernel) (by decide +kernel)

/-- Next to an edit without an exact match, `a-b` is not replaced where it stands, at offset 4, but
at the second line, which is equal only once normalized. -/
theorem sibling_edit_relocates_dashes :
    applyReplacementsWithFallback id dashes siblings "notes.txt" =
        .ok ⟨dashes, .ofString "x = a-b\nc\nr\n"⟩ ∧
      ¬ ∃ spans, servedSpans id dashes siblings "notes.txt" = .ok spans ∧
        AppliedAtOccurrences dashes siblings spans := by
  refine ⟨by decide +kernel, fun ⟨spans, hserved, happlied⟩ => ?_⟩
  obtain ⟨span, hspan, hstart, -⟩ := happlied 0 _ 4 rfl occursOnce_dashes
  have hfirst : (servedSpans id dashes siblings "notes.txt").map
      (fun spans => spans[0]?.map (·.start)) = .ok (some 8) := by decide +kernel
  rw [hserved, Except.map, hspan, Option.map_some, hstart] at hfirst
  exact absurd hfirst (by simp)

end Tile
