import Mathlib.Algebra.Order.BigOperators.Group.List
import Mathlib.Algebra.Order.Group.Nat
import Tile.Library.Probe
import Tile.Tools.EditAtOnce
import Tile.Tools.EditScan

/-!
# Tools/EditAgree — when both ways of matching make the same edits

Where a request can be served by exact matching and by whole-line matching, both make the same of
it, whatever the new texts are, **just when every occurrence covers whole lines**
(`paths_agree_iff`).  Otherwise the new texts can be chosen so that the results tell the two places
apart.
-/

namespace Tile

open PyStr

/-! ## Counting newlines -/

theorem IsLine.count_lf {line : PyStr} (h : IsLine line) :
    line.count lf = if endsWithLf line then 1 else 0 := by
  obtain ⟨body, hbody, rfl | ⟨rfl, -⟩⟩ := h
  · simp [List.count_eq_zero_of_not_mem hbody]
  · simp [List.count_eq_zero_of_not_mem hbody, endsWithLf_of_not_mem hbody]

theorem endsWithLf_eq_of_normalize {nfkc : PyStr → PyStr} (hnfkc : NewlineStable nfkc)
    {line oldLine : PyStr} (hline : IsLine line) (holdLine : IsLine oldLine)
    (h : normalizeForFuzzyMatch nfkc line = normalizeForFuzzyMatch nfkc oldLine) :
    endsWithLf line = endsWithLf oldLine := by
  rw [← endsWithLf_normalize hnfkc hline, h, endsWithLf_normalize hnfkc holdLine]

/-- A window has the newlines of the text it reads like, and perhaps one at its end. -/
theorem ReadsLike.count_lf {nfkc : PyStr → PyStr} (hnfkc : NewlineStable nfkc)
    {window old : List PyStr} (h : ReadsLike nfkc window old)
    (hwindow : ∀ line ∈ window, IsLine line) (hold : ∀ line ∈ old, IsLine line) :
    window.flatten.count lf = old.flatten.count lf
      + if endsWithLf old.flatten = false ∧ endsWithLf window.flatten then 1 else 0 := by
  induction h with
  | @last line oldLine h =>
    have hline := hwindow line List.mem_cons_self
    have holdLine := hold oldLine List.mem_cons_self
    simp only [List.flatten_singleton]
    rw [hline.count_lf, holdLine.count_lf]
    rcases h with h | ⟨hopen, h⟩
    · have hends := endsWithLf_eq_of_normalize hnfkc hline holdLine h
      cases hopen : endsWithLf oldLine <;> simp [hends, hopen]
    · have hends := congrArg endsWithLf h
      rw [endsWithLf_normalize hnfkc hline, endsWithLf_append_lf] at hends
      simp [hends, hopen]
  | @cons line oldLine window old h rest ih =>
    obtain ⟨hline, hwindow⟩ := List.forall_mem_cons.mp hwindow
    obtain ⟨holdLine, hold⟩ := List.forall_mem_cons.mp hold
    have hends := endsWithLf_eq_of_normalize hnfkc hline holdLine h
    have holdNe : old ≠ [] := List.length_pos_iff.mp
      (rest.length_eq ▸ List.length_pos_iff.mpr rest.ne_nil)
    rw [List.flatten_cons, List.flatten_cons, List.count_append, List.count_append, ih hwindow hold,
      hline.count_lf, holdLine.count_lf, hends,
      endsWithLf_append (mt (flatten_eq_nil_iff hwindow).mp rest.ne_nil),
      endsWithLf_append (mt (flatten_eq_nil_iff hold).mp holdNe), Nat.add_assoc]

/-- Behind a newline there are more of them. -/
theorem count_take_lt {content : PyStr} {i j : Nat} (hlt : i < j) (hj : j ≤ content.length)
    (h : endsWithLf (content.take j)) : (content.take i).count lf < (content.take j).count lf := by
  obtain ⟨body, hbody⟩ := endsWithLf_iff.mp h
  have hlength := congrArg List.length hbody
  rw [List.length_take_of_le hj, List.length_append, List.length_singleton] at hlength
  have hi : content.take i = body.take i := by
    calc content.take i = (content.take j).take i := by rw [List.take_take, Nat.min_eq_left hlt.le]
      _ = body.take i := by rw [hbody, List.take_append_of_le_length (by omega)]
  have hle : (body.take i).count lf ≤ body.count lf := (List.take_sublist i body).count_le lf
  rw [hi, hbody, List.count_append, List.count_singleton_self]
  omega

/-- A place with as many newlines in front as the start of a line is not in front of it. -/
theorem le_of_count_take_eq {content : PyStr} {i j : Nat} (hj : j ≤ content.length)
    (hstart : j = 0 ∨ endsWithLf (content.take j))
    (h : (content.take i).count lf = (content.take j).count lf) : j ≤ i := by
  rcases hstart with rfl | hends
  · exact Nat.zero_le i
  · by_contra hlt
    exact (count_take_lt (Nat.lt_of_not_le hlt) hj hends).ne h

/-- The lines in front of a line all have their newline. -/
theorem endsWithLf_flatten {content : PyStr} {before after : List PyStr}
    (h : terminatedLines content = before ++ after) (hbefore : before ≠ []) (hafter : after ≠ []) :
    endsWithLf before.flatten := by
  obtain ⟨init, line, rfl⟩ := (List.eq_nil_or_concat' before).resolve_left hbefore
  have hpos := List.length_pos_iff.mpr hafter
  have hline : (terminatedLines content)[init.length]? = some line := by simp [h]
  rw [List.flatten_append, List.flatten_singleton,
    endsWithLf_append (isLine_of_mem (List.mem_of_getElem? hline)).ne_nil]
  exact endsWithLf_of_lt hline (by rw [h]; simp; omega)

/-! ## Places -/

namespace Matcher

variable (m : Matcher)

/-- Where an edit is made does not depend on its new text. -/
structure ByOldText : Prop where
  starts : ∀ edit, m.starts edit = m.starts ⟨edit.oldText, []⟩
  spanAt : ∀ edit start, m.spanAt edit start = {
    m.spanAt ⟨edit.oldText, []⟩ start with replacement := normalizeToLf edit.newText }

/-- Where an old text is replaced. -/
def place (oldText : PyStr) : Nat × Nat :=
  let span := m.spanAt ⟨oldText, []⟩ ((m.starts ⟨oldText, []⟩).headD 0)
  (span.start, span.stop)

/-- The span of an edit with characters of its own at its place. -/
def placed (edit : EditReplacement) : Span CodePoint :=
  ⟨(m.place edit.oldText).1, (m.place edit.oldText).2, normalizeToLf edit.newText⟩

@[simp] theorem placed_start (edit : EditReplacement) :
    (m.placed edit).start = (m.place edit.oldText).1 := rfl

@[simp] theorem placed_stop (edit : EditReplacement) :
    (m.placed edit).stop = (m.place edit.oldText).2 := rfl

variable {m}

theorem ByOldText.spanOf_eq (h : m.ByOldText) {edit : EditReplacement} (hunique : m.Unique edit) :
    m.spanOf edit = some (m.placed edit) := by
  obtain ⟨start, hstart⟩ := List.length_eq_one_iff.mp hunique
  refine spanOf_eq_some.mpr ⟨start, hstart, ?_⟩
  rw [h.starts edit] at hstart
  rw [h.spanAt edit start, placed, place, hstart]
  rfl

theorem ByOldText.spans_eq (h : m.ByOldText) {edits : List EditReplacement}
    (hunique : ∀ edit ∈ edits, m.Unique edit) : m.spans edits = edits.map m.placed := by
  rw [Matcher.spans, List.filterMap_congr fun edit hedit => h.spanOf_eq (hunique edit hedit)]
  exact congrFun List.filterMap_eq_map edits

/-- The matcher finds every edit once, and the spans pass the overlap check. -/
def Finds (m : Matcher) (edits : List EditReplacement) : Prop :=
  (∀ edit ∈ edits, m.Unique edit) ∧ (m.spans edits).Pairwise Span.Admits

theorem ByOldText.finds_iff (h : m.ByOldText) {edits : List EditReplacement} :
    m.Finds edits ↔ (∀ old ∈ edits.map (·.oldText), m.Unique ⟨old, []⟩) ∧
      (edits.map (·.oldText)).Pairwise fun old other =>
        (m.placed ⟨old, []⟩).Admits (m.placed ⟨other, []⟩) := by
  have hunique : (∀ edit ∈ edits, m.Unique edit) ↔
      ∀ old ∈ edits.map (·.oldText), m.Unique ⟨old, []⟩ := by
    rw [List.forall_mem_map]
    refine forall₂_congr fun edit _ => ?_
    rw [Unique, h.starts edit, Unique]
  rw [Finds, hunique]
  refine and_congr_right fun hold => ?_
  rw [h.spans_eq (hunique.mpr hold), List.pairwise_map, List.pairwise_map]
  rfl

/-- **Whether a request is found does not depend on its new texts.** -/
theorem ByOldText.finds_congr (h : m.ByOldText) {edits others : List EditReplacement}
    (hsame : others.map (·.oldText) = edits.map (·.oldText)) : m.Finds others ↔ m.Finds edits := by
  rw [h.finds_iff, h.finds_iff, hsame]

theorem ByOldText.disjoint (h : m.ByOldText) {edits : List EditReplacement}
    (hfinds : m.Finds edits) :
    (edits.map (·.oldText)).Pairwise fun old other =>
      (m.place old).2 ≤ (m.place other).1 ∨ (m.place other).2 ≤ (m.place old).1 := by
  have hadmits := hfinds.2
  rw [h.spans_eq hfinds.1] at hadmits
  exact List.pairwise_map.mpr ((List.pairwise_map.mp hadmits).imp Span.Admits.disjoint)

end Matcher

theorem byOldText_exactMatcher (content : PyStr) : (exactMatcher content).ByOldText :=
  ⟨fun _ => rfl, fun _ _ => rfl⟩

theorem byOldText_lineMatcher (nfkc : PyStr → PyStr) (content : PyStr) :
    (lineMatcher nfkc content).ByOldText :=
  ⟨fun _ => rfl, fun _ _ => rfl⟩

/-! ## An occurrence and a window -/

section Window

variable {nfkc : PyStr → PyStr} (hnfkc : NewlineStable nfkc) {content : PyStr}
  {edit : EditReplacement} {span window : Span CodePoint}

theorem HitOnce.occursAt (h : HitOnce content edit span) :
    content.OccursAt (normalizeToLf edit.oldText) span.start := by
  cases h.scan with
  | hit _ hoccurs _ _ => exact hoccurs

theorem HitOnce.text_eq (hold : edit.oldText ≠ []) (h : HitOnce content edit span) :
    (content.take span.stop).drop span.start = normalizeToLf edit.oldText := by
  obtain ⟨front, back, hoccurs, hfront⟩ :=
    (occursAt_iff (normalizeToLf_ne_nil hold)).mp h.occursAt
  rw [h.stop, ← hfront, ← List.length_append, hoccurs, List.take_left, List.drop_left]

include hnfkc in
/-- A window has as many newlines as the old text, starts where a line starts and stops where one
stops. -/
theorem IsWindow.exists_text (h : IsWindow nfkc content edit window) :
    ∃ before text after, content = before ++ text ++ after ∧ window.start = before.length ∧
      window.stop = before.length + text.length ∧
      text.count lf = (normalizeToLf edit.oldText).count lf ∧
      (before = [] ∨ endsWithLf before) ∧
      (after = [] ∨ after.head? = some lf ∨ endsWithLf (normalizeToLf edit.oldText)) := by
  obtain ⟨pre, mid, post, hlines, hreads, -, hstart, hstop⟩ := h.window
  have hcontent : content = pre.flatten ++ mid.flatten ++ post.flatten := by
    rw [← flatten_terminatedLines content, hlines]
    simp
  have hmem : ∀ line ∈ mid, IsLine line := fun line hline =>
    @isLine_of_mem content line (by rw [hlines]; simp [hline])
  have hcount := hreads.count_lf hnfkc hmem fun line => isLine_of_mem
  rw [flatten_terminatedLines] at hcount
  have hbefore : pre.flatten = [] ∨ endsWithLf pre.flatten := by
    rcases eq_or_ne pre [] with rfl | hpre
    · exact .inl rfl
    · rw [List.append_assoc] at hlines
      exact .inr (endsWithLf_flatten hlines hpre
        (List.append_ne_nil_of_left_ne_nil hreads.ne_nil _))
  by_cases hopen : endsWithLf (normalizeToLf edit.oldText) = false ∧ endsWithLf mid.flatten
  · obtain ⟨body, hbody⟩ := endsWithLf_iff.mp hopen.2
    rw [if_pos hopen, hbody, List.count_append, List.count_singleton_self] at hcount
    rw [if_pos hopen, List.flatten_append, hbody] at hstop
    refine ⟨pre.flatten, body, lf :: post.flatten, ?_, hstart, ?_, by omega, hbefore,
      .inr (.inl rfl)⟩
    · rw [hcontent, hbody]
      simp
    · rw [hstop]
      simp
  · rw [if_neg hopen, Nat.add_zero] at hcount
    rw [if_neg hopen, List.flatten_append, List.length_append] at hstop
    refine ⟨pre.flatten, mid.flatten, post.flatten, hcontent, hstart, hstop, hcount, hbefore, ?_⟩
    rcases eq_or_ne post [] with rfl | hpost
    · exact .inl rfl
    · have hends := endsWithLf_flatten hlines (List.append_ne_nil_of_right_ne_nil _ hreads.ne_nil)
        hpost
      rw [List.flatten_append,
        endsWithLf_append (mt (flatten_eq_nil_iff hmem).mp hreads.ne_nil)] at hends
      exact .inr (.inr (by simpa [hends] using hopen))

include hnfkc in
theorem IsWindow.count_text (h : IsWindow nfkc content edit window) :
    ((content.take window.stop).drop window.start).count lf
      = (normalizeToLf edit.oldText).count lf := by
  obtain ⟨before, text, after, hcontent, hstart, hstop, hcount, -, -⟩ := h.exists_text hnfkc
  rw [hstart, hstop, hcontent, ← List.length_append, List.take_left, List.drop_left, hcount]

include hnfkc in
/-- An occurrence in the lines of a window lies inside the window. -/
theorem HitOnce.within (hold : edit.oldText ≠ []) (hspan : HitOnce content edit span)
    (hwindow : IsWindow nfkc content edit window)
    (hsame : (content.take span.start).count lf = (content.take window.start).count lf) :
    window.start ≤ span.start ∧ span.stop ≤ window.stop := by
  obtain ⟨front, back, hoccurs, hfront⟩ :=
    (occursAt_iff (normalizeToLf_ne_nil hold)).mp hspan.occursAt
  obtain ⟨before, text, after, hcontent, hstart, hstop, hcount, hbefore, hafter⟩ :=
    hwindow.exists_text hnfkc
  have hspanStop : span.stop = (front ++ normalizeToLf edit.oldText).length := by
    rw [hspan.stop, List.length_append, hfront]
  have hlength : span.stop ≤ content.length := by
    rw [hspanStop, hoccurs]
    simp
  have htake : content.take window.start = before := by
    rw [hcontent, hstart, List.append_assoc, List.take_left]
  have htakeStop : content.take window.stop = before ++ text := by
    rw [hcontent, hstop, ← List.length_append, List.take_left]
  have htakeSpan : content.take span.stop = front ++ normalizeToLf edit.oldText := by
    rw [hspanStop, hoccurs, List.take_left]
  have htakeFront : content.take span.start = front := by
    rw [← hfront, hoccurs, List.append_assoc, List.take_left]
  have hequal : (content.take window.stop).count lf = (content.take span.stop).count lf := by
    rw [htakeStop, htakeSpan, List.count_append, List.count_append, hcount, ← htake, ← htakeFront,
      hsame]
  refine ⟨le_of_count_take_eq (by rw [hcontent, hstart]; simp) ?_ hsame, ?_⟩
  · rw [htake, hstart]
    exact hbefore.imp_left (congrArg List.length)
  rcases hafter with rfl | hhead | hends
  · rw [List.append_nil, ← htakeStop] at hcontent
    exact hlength.trans (List.take_eq_self_iff content |>.mp hcontent.symm)
  · -- one more character, and there is one newline more
    by_contra hlt
    have hlt := Nat.lt_of_not_le hlt
    obtain ⟨rest, rfl⟩ : ∃ rest, after = lf :: rest := List.head?_eq_some_iff.mp hhead
    have htakeNext : content.take (window.stop + 1) = before ++ text ++ [lf] := by
      rw [hcontent, hstop, ← List.length_append, List.take_length_add_append]
      rfl
    have hmore := count_take_lt (Nat.lt_add_one window.stop) (by omega)
      (htakeNext ▸ endsWithLf_append_lf _)
    have hsub : (content.take (window.stop + 1)).Sublist (content.take span.stop) :=
      List.take_sublist_take_left hlt
    have := hsub.count_le lf
    omega
  · refine le_of_count_take_eq hlength (.inr ?_) hequal
    rw [htakeSpan, endsWithLf_append (normalizeToLf_ne_nil hold)]
    exact hends

end Window

/-! ## Both ways of matching -/

section Places

variable {nfkc : PyStr → PyStr} (hnfkc : NewlineStable nfkc) {content : PyStr}

theorem hitOnce_placed {edit : EditReplacement} (hold : edit.oldText ≠ [])
    (h : (exactMatcher content).Unique edit) :
    HitOnce content edit ((exactMatcher content).placed edit) :=
  (spanOf_exactMatcher_iff hold).mp ((byOldText_exactMatcher content).spanOf_eq h)

include hnfkc in
theorem isWindow_placed {edit : EditReplacement} (hold : edit.oldText ≠ [])
    (h : (lineMatcher nfkc content).Unique edit) :
    IsWindow nfkc content edit ((lineMatcher nfkc content).placed edit) :=
  (spanOf_lineMatcher_iff hnfkc hold).mp ((byOldText_lineMatcher nfkc content).spanOf_eq h)

include hnfkc in
/-- The two places of an old text are the same one just when its occurrence covers whole lines. -/
theorem place_eq_iff {edit : EditReplacement} (hold : edit.oldText ≠ [])
    (hhit : (exactMatcher content).Unique edit) (hwindow : (lineMatcher nfkc content).Unique edit) :
    (exactMatcher content).place edit.oldText = (lineMatcher nfkc content).place edit.oldText ↔
      CoversLines content (normalizeToLf edit.oldText)
        ((exactMatcher content).place edit.oldText).1 := by
  have hlf := normalizeToLf_ne_nil hold
  have hspan := hitOnce_placed hold hhit
  obtain ⟨start, hstart⟩ := List.length_eq_one_iff.mp hwindow
  obtain ⟨found, hfound, hat⟩ := Matcher.matched_of_starts "" 1 0 hstart
  have hplaced : found.span = (lineMatcher nfkc content).placed edit :=
    Option.some.inj ((Matcher.spanOf_eq_some.mpr ⟨start, hstart, hat.symm⟩).symm.trans
      ((byOldText_lineMatcher nfkc content).spanOf_eq hwindow))
  have hfoundStart : found.start = ((lineMatcher nfkc content).place edit.oldText).1 := by
    rw [← Matcher.placed_start, ← hplaced, MatchedSpan.span]
  have hfoundStop : found.stop = ((lineMatcher nfkc content).place edit.oldText).2 := by
    rw [← Matcher.placed_stop, ← hplaced, MatchedSpan.span]
  have hoccurs := hspan.occursAt
  have hstop := hspan.stop
  rw [Matcher.placed_start] at hoccurs hstop
  rw [Matcher.placed_stop] at hstop
  constructor
  · intro heq
    have hsame : found.start = ((exactMatcher content).place edit.oldText).1 := by
      rw [hfoundStart, heq]
    rw [← hsame]
    refine coversLines_of_fuzzySpan hlf hfound (hsame ▸ hoccurs) ?_
    rw [hfoundStop, ← heq, hsame, hstop]
  · intro hcovers
    obtain ⟨hfirst, hlast⟩ := fuzzySpan_of_coversLines hnfkc hlf hfound hoccurs hcovers
    exact Prod.ext (hfirst.symm.trans hfoundStart) (hstop.trans (hlast.symm.trans hfoundStop))

theorem text_place {edit : EditReplacement} (hold : edit.oldText ≠ [])
    (h : (exactMatcher content).Unique edit) :
    (content.take ((exactMatcher content).place edit.oldText).2).drop
      ((exactMatcher content).place edit.oldText).1 = normalizeToLf edit.oldText := by
  have htext := (hitOnce_placed hold h).text_eq hold
  rwa [Matcher.placed_start, Matcher.placed_stop] at htext

include hnfkc in
theorem count_place {edit : EditReplacement} (hold : edit.oldText ≠ [])
    (h : (lineMatcher nfkc content).Unique edit) :
    ((content.take ((lineMatcher nfkc content).place edit.oldText).2).drop
      ((lineMatcher nfkc content).place edit.oldText).1).count lf
        = (normalizeToLf edit.oldText).count lf := by
  have hcount := (isWindow_placed hnfkc hold h).count_text hnfkc
  rwa [Matcher.placed_start, Matcher.placed_stop] at hcount

include hnfkc in
theorem place_within {edit : EditReplacement} (hold : edit.oldText ≠ [])
    (hhit : (exactMatcher content).Unique edit) (hwindow : (lineMatcher nfkc content).Unique edit)
    (hsame : (content.take ((exactMatcher content).place edit.oldText).1).count lf
      = (content.take ((lineMatcher nfkc content).place edit.oldText).1).count lf) :
    ((lineMatcher nfkc content).place edit.oldText).1
        ≤ ((exactMatcher content).place edit.oldText).1 ∧
      ((exactMatcher content).place edit.oldText).2
        ≤ ((lineMatcher nfkc content).place edit.oldText).2 := by
  have hwithin := (hitOnce_placed hold hhit).within hnfkc hold (isWindow_placed hnfkc hold hwindow)
  simp only [Matcher.placed_start, Matcher.placed_stop] at hwithin
  exact hwithin hsame

variable {edits : List EditReplacement} (hold : ∀ edit ∈ edits, edit.oldText ≠ [])
include hold

theorem place_fits_exact (hunique : ∀ edit ∈ edits, (exactMatcher content).Unique edit) :
    ∀ edit ∈ edits, ((exactMatcher content).place edit.oldText).1
        < ((exactMatcher content).place edit.oldText).2 ∧
      ((exactMatcher content).place edit.oldText).2 ≤ content.length := by
  intro edit hedit
  have hmem := List.mem_map_of_mem (f := (exactMatcher content).placed) hedit
  rw [← (byOldText_exactMatcher content).spans_eq hunique] at hmem
  obtain ⟨hlt, -, hle⟩ := exactMatcher_fits content
    (fun edit hedit => normalizeToLf_ne_nil (hold edit hedit)) _ hmem
  rw [Matcher.placed_start, Matcher.placed_stop] at hlt
  rw [Matcher.placed_stop] at hle
  exact ⟨hlt, hle⟩

theorem place_fits_lines (hunique : ∀ edit ∈ edits, (lineMatcher nfkc content).Unique edit) :
    ∀ edit ∈ edits, ((lineMatcher nfkc content).place edit.oldText).1
        ≤ ((lineMatcher nfkc content).place edit.oldText).2 ∧
      ((lineMatcher nfkc content).place edit.oldText).2 ≤ content.length := by
  intro edit hedit
  have hmem := List.mem_map_of_mem (f := (lineMatcher nfkc content).placed) hedit
  rw [← (byOldText_lineMatcher nfkc content).spans_eq hunique] at hmem
  obtain ⟨hle, hlength⟩ := lineMatcher_fits nfkc content
    (fun edit hedit => normalizeToLf_ne_nil (hold edit hedit)) _ hmem
  rw [Matcher.placed_start, Matcher.placed_stop] at hle
  rw [Matcher.placed_stop] at hlength
  exact ⟨hle, hlength⟩

end Places

/-- A replacement longer than the content, with the newlines of an old text. -/
def filler (content oldText : PyStr) : PyStr :=
  List.replicate (content.length + 1) 0x78 ++ List.replicate ((normalizeToLf oldText).count lf) lf

/-- A request that tells where one of its old texts is replaced. -/
def probing (content : PyStr) (olds : List PyStr) (old : PyStr) (c : CodePoint) :
    List EditReplacement :=
  olds.map fun other => ⟨other, mark (filler content) old c other⟩

section Probing

variable {m : Matcher} {content old : PyStr} {olds : List PyStr} {c : CodePoint}

theorem count_filler (content old : PyStr) :
    (filler content old).count lf = (normalizeToLf old).count lf := by
  rw [filler, List.count_append, List.count_replicate_self,
    List.count_eq_zero_of_not_mem fun h => absurd (List.eq_of_mem_replicate h) (by decide),
    Nat.zero_add]

theorem map_oldText_probing : (probing content olds old c).map (·.oldText) = olds := by
  simp [probing, Function.comp_def]

theorem normalizeToLf_mark (hc : c ≠ cr) (other : PyStr) :
    normalizeToLf (mark (filler content) old c other) = mark (filler content) old c other := by
  have hfiller : cr ∉ filler content other := by
    simp only [filler, List.mem_append, List.mem_replicate, not_or]
    exact ⟨fun h => absurd h.2 (by decide), fun h => absurd h.2 (by decide)⟩
  refine normalizeToLf_of_not_mem ?_
  rw [mark]
  split
  · simpa [Ne.symm hc] using hfiller
  · exact hfiller

/-- A request that is found is served with these new texts. -/
theorem serves_probing (h : m.ByOldText) (hfinds : m.Finds (probing content olds old c))
    (hne : olds ≠ []) (hc : c ≠ cr) : m.Serves content (probing content olds old c)
      (splice content (descending (spansAt m.place (mark (filler content) old c) olds))) := by
  have hspans : m.spans (probing content olds old c)
      = spansAt m.place (mark (filler content) old c) olds := by
    rw [h.spans_eq hfinds.1, probing, List.map_map, spansAt]
    refine List.map_congr_left fun other _ => ?_
    simp only [Function.comp_apply, Matcher.placed, normalizeToLf_mark hc]
  refine ⟨hfinds.1, hfinds.2, by rw [hspans], fun heq => ?_⟩
  have hlong : ∀ other, content.length < (mark (filler content) old c other).length := by
    intro other
    rw [mark]
    split <;> simp [filler] <;> omega
  rw [descending_spansAt] at heq
  have hlast : lastFirst m.place olds ≠ [] := fun hnil =>
    hne (hnil ▸ perm_lastFirst m.place olds).nil_eq.symm
  have hlength := @lt_length_splice _ content
    (spansAt m.place (mark (filler content) old c) (lastFirst m.place olds)) content.length
    (mt List.map_eq_nil_iff.mp hlast) (List.forall_mem_map.mpr fun other _ => hlong other)
  rw [heq] at hlength
  exact absurd hlength (Nat.lt_irrefl _)

end Probing

/-! ## The paths agree -/

/-- Exact matching finds every old text and so does whole-line matching, each in places that pass
the overlap check. -/
structure BothMatch (nfkc : PyStr → PyStr) (content : PyStr) (edits : List EditReplacement) :
    Prop where
  occurrences : ∃ spans, List.Forall₂ (HitOnce content) edits spans ∧
    spans.Pairwise Span.Disjoint
  windows : ∃ spans, List.Forall₂ (IsWindow nfkc content) edits spans ∧ spans.Pairwise Span.Admits

section Agree

variable {nfkc : PyStr → PyStr} (hnfkc : NewlineStable nfkc) {content : PyStr}
  {edits : List EditReplacement} (hold : ∀ edit ∈ edits, edit.oldText ≠ [])
include hnfkc hold

theorem bothMatch_iff : BothMatch nfkc content edits ↔
    (exactMatcher content).Finds edits ∧ (lineMatcher nfkc content).Finds edits := by
  have hproper := exactMatcher_fits content fun edit hedit => normalizeToLf_ne_nil (hold edit hedit)
  have hadmits := pairwise_admits_iff fun span hspan => (hproper span hspan).1
  constructor
  · rintro ⟨⟨spans, hspans, hdisjoint⟩, ⟨windows, hwindows, hwindowsAdmit⟩⟩
    obtain ⟨hhits, rfl⟩ := (forall₂_hitOnce_iff hold).mp hspans
    obtain ⟨hunique, rfl⟩ := (forall₂_isWindow_iff hnfkc hold).mp hwindows
    exact ⟨⟨hhits, hadmits.mpr hdisjoint⟩, hunique, hwindowsAdmit⟩
  · rintro ⟨⟨hhits, hspans⟩, hunique, hwindows⟩
    exact ⟨⟨_, (forall₂_hitOnce_iff hold).mpr ⟨hhits, rfl⟩, hadmits.mp hspans⟩,
      ⟨_, (forall₂_isWindow_iff hnfkc hold).mpr ⟨hunique, rfl⟩, hwindows⟩⟩

/-- **Same results, same places.** -/
theorem place_eq_of_agree (hhits : (exactMatcher content).Finds edits)
    (hwindows : (lineMatcher nfkc content).Finds edits)
    (hagree : ∀ old ∈ edits.map (·.oldText), ∀ c, c = 0x61 ∨ c = 0x62 →
      splice content (descending (spansAt (exactMatcher content).place
          (mark (filler content) old c) (edits.map (·.oldText))))
        = splice content (descending (spansAt (lineMatcher nfkc content).place
          (mark (filler content) old c) (edits.map (·.oldText))))) :
    ∀ edit ∈ edits, (exactMatcher content).place edit.oldText
      = (lineMatcher nfkc content).place edit.oldText := by
  have hspanFits := place_fits_exact hold hhits.1
  have hdisjoint := (byOldText_exactMatcher content).disjoint hhits
  have hnodup : (edits.map (·.oldText)).Nodup := hdisjoint.imp_of_mem fun {old other} hmem _ h => by
    obtain ⟨edit, hedit, rfl⟩ := List.mem_map.mp hmem
    rintro rfl
    have := (hspanFits edit hedit).1
    omega
  have hspanCount : ∀ edit ∈ edits, (filler content edit.oldText).countP (· == lf)
      = ((content.take ((exactMatcher content).place edit.oldText).2).drop
          ((exactMatcher content).place edit.oldText).1).countP (· == lf) := fun edit hedit => by
    rw [text_place (hold edit hedit) (hhits.1 edit hedit)]
    exact count_filler content _
  have hwindowCount : ∀ edit ∈ edits, (filler content edit.oldText).countP (· == lf)
      = ((content.take ((lineMatcher nfkc content).place edit.oldText).2).drop
          ((lineMatcher nfkc content).place edit.oldText).1).countP (· == lf) := fun edit hedit =>
    (count_filler content _).trans
      (count_place hnfkc (hold edit hedit) (hwindows.1 edit hedit)).symm
  obtain ⟨hsame, hsum⟩ := places_agree (· == lf) (by decide) hnodup
    (List.forall_mem_map.mpr hspanFits) hdisjoint
    (List.forall_mem_map.mpr (place_fits_lines hold hwindows.1))
    ((byOldText_lineMatcher nfkc content).disjoint hwindows)
    (List.forall_mem_map.mpr hspanCount) (List.forall_mem_map.mpr hwindowCount) hagree
  have hwithin := fun edit (hedit : edit ∈ edits) => place_within hnfkc (hold edit hedit)
    (hhits.1 edit hedit) (hwindows.1 edit hedit) (hsame _ (List.mem_map_of_mem hedit))
  intro edit hedit
  by_contra hne
  rw [Prod.ext_iff] at hne
  -- no occurrence is longer than its window, and this one is shorter
  refine hsum.not_lt (List.sum_lt_sum _ _ (List.forall_mem_map.mpr fun other hother => ?_)
    ⟨edit.oldText, List.mem_map_of_mem hedit, ?_⟩)
  · have := hwithin other hother
    omega
  · have hinside := hwithin edit hedit
    have hlt := (hspanFits edit hedit).1
    omega

end Agree

/-- **When both paths agree.**  Whatever the new texts of a request are, exact matching and
whole-line matching make the same content of it where both succeed, if and only if each old text
covers whole lines where it occurs, as far as both match them all. -/
theorem paths_agree_iff {nfkc : PyStr → PyStr} (hnfkc : NewlineStable nfkc) (content : PyStr)
    (edits : List EditReplacement) (path : String) (hold : ∀ edit ∈ edits, edit.oldText ≠ []) :
    (∀ others : List EditReplacement, others.map (·.oldText) = edits.map (·.oldText) →
      ∀ byText byLines, applyExactReplacements content others path = .ok byText →
        applyFuzzyReplacements nfkc content others path = .ok byLines →
        byText.newContent = byLines.newContent) ↔
    (BothMatch nfkc content edits → ∀ edit ∈ edits, ∀ span, HitOnce content edit span →
      CoversLines content (normalizeToLf edit.oldText) span.start) := by
  have htext := byOldText_exactMatcher content
  have hlines := byOldText_lineMatcher nfkc content
  have holds : ∀ {others : List EditReplacement}, others.map (·.oldText) = edits.map (·.oldText) →
      ∀ other ∈ others, normalizeToLf other.oldText ≠ [] := fun hsame other hother => by
    obtain ⟨edit, hedit, heq⟩ := List.mem_map.mp (hsame ▸ List.mem_map_of_mem hother)
    exact normalizeToLf_ne_nil (heq ▸ hold edit hedit)
  have hfits : ∀ {others : List EditReplacement}, others.map (·.oldText) = edits.map (·.oldText) →
      (∀ span ∈ (exactMatcher content).spans others, span.Fits content.length) ∧
        ∀ span ∈ (lineMatcher nfkc content).spans others, span.Fits content.length := fun hsame =>
    ⟨fun span hspan => (exactMatcher_fits content (holds hsame) span hspan).2,
      lineMatcher_fits nfkc content (holds hsame)⟩
  rw [bothMatch_iff hnfkc hold]
  constructor
  · rintro hagree ⟨hhits, hwindows⟩ edit hedit span hspan
    have hplaces := place_eq_of_agree hnfkc hold hhits hwindows fun old hmem c hc => by
      have hsame := @map_oldText_probing content old (edits.map (·.oldText)) c
      have hcr : c ≠ cr := by rcases hc with rfl | rfl <;> decide
      have hne := List.ne_nil_of_mem hmem
      obtain ⟨byText, hbyText, hnewText⟩ := (Matcher.apply_iff_serves path (hfits hsame).1 _).mpr
        (serves_probing htext ((htext.finds_congr hsame).mpr hhits) hne hcr)
      obtain ⟨byLines, hbyLines, hnewLines⟩ :=
        (Matcher.apply_iff_serves path (hfits hsame).2 _).mpr
          (serves_probing hlines ((hlines.finds_congr hsame).mpr hwindows) hne hcr)
      rw [← hnewText, ← hnewLines]
      exact hagree _ hsame _ _ hbyText hbyLines
    obtain rfl : (exactMatcher content).placed edit = span :=
      Option.some.inj ((htext.spanOf_eq (hhits.1 edit hedit)).symm.trans
        ((spanOf_exactMatcher_iff (hold edit hedit)).mpr hspan))
    exact (place_eq_iff hnfkc (hold edit hedit) (hhits.1 edit hedit) (hwindows.1 edit hedit)).mp
      (hplaces edit hedit)
  · intro hcovers others hsame byText byLines hbyText hbyLines
    obtain ⟨-, hbyText⟩ := (Matcher.apply_eq_ok_iff path (hfits hsame).1).mp hbyText
    obtain ⟨-, hbyLines⟩ := (Matcher.apply_eq_ok_iff path (hfits hsame).2).mp hbyLines
    have hhits := (htext.finds_congr hsame).mp ⟨hbyText.unique, hbyText.admits⟩
    have hwindows := (hlines.finds_congr hsame).mp ⟨hbyLines.unique, hbyLines.admits⟩
    have hspans : (exactMatcher content).spans others
        = (lineMatcher nfkc content).spans others := by
      rw [htext.spans_eq hbyText.unique, hlines.spans_eq hbyLines.unique]
      refine List.map_congr_left fun other hother => ?_
      obtain ⟨edit, hedit, heq⟩ := List.mem_map.mp (hsame ▸ List.mem_map_of_mem hother)
      have hcover := hcovers ⟨hhits, hwindows⟩ edit hedit _
        (hitOnce_placed (hold edit hedit) (hhits.1 edit hedit))
      rw [Matcher.placed, Matcher.placed, ← heq, (place_eq_iff hnfkc (hold edit hedit)
        (hhits.1 edit hedit) (hwindows.1 edit hedit)).mpr hcover]
    rw [← hbyText.splice_eq, ← hbyLines.splice_eq, hspans]

/-- A text with `a-b` in its first line, and `a–b`, with an en dash, as its second. -/
def hyphens : PyStr := .ofString "x = a-b\na\u2013b\n"

def hyphenEdits : List EditReplacement := [⟨.ofString "a-b", .ofString "c"⟩]

theorem paths_agree_iff_hyphens :
    (∀ others : List EditReplacement, others.map (·.oldText) = hyphenEdits.map (·.oldText) →
      ∀ byText byLines, applyExactReplacements hyphens others "notes.txt" = .ok byText →
        applyFuzzyReplacements id hyphens others "notes.txt" = .ok byLines →
        byText.newContent = byLines.newContent) ↔
    (BothMatch id hyphens hyphenEdits → ∀ edit ∈ hyphenEdits, ∀ span, HitOnce hyphens edit span →
      CoversLines hyphens (normalizeToLf edit.oldText) span.start) :=
  paths_agree_iff newlineStable_id hyphens hyphenEdits "notes.txt" (by decide +kernel)

/-- Exact matching replaces `a-b` inside the first line, whole-line matching replaces the second
line, which is equal only once normalized. -/
theorem not_paths_agree_hyphens :
    ¬ ∀ (content : PyStr) (edits : List EditReplacement) (path : String)
        (byText byLines : ReplacementApplication), cr ∉ content →
      applyExactReplacements content edits path = .ok byText →
      applyFuzzyReplacements id content edits path = .ok byLines →
      byText.newContent = byLines.newContent := by
  intro h
  have hsame := h hyphens hyphenEdits "notes.txt" ⟨hyphens, .ofString "x = c\na\u2013b\n"⟩
    ⟨hyphens, .ofString "x = a-b\nc\n"⟩ (by decide +kernel) (by decide +kernel)
    (by decide +kernel)
  exact absurd hsame (by decide +kernel)

end Tile
