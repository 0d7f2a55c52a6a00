import Mathlib.Data.List.Forall2
import Tile.Tools.EditSpans

/-!
# Tools/EditMatchers — the two matchers as one

Exact matching and whole-line matching differ in where the text of an edit starts and in the span
from there, and are otherwise the same search.  `mapM_matched` says what it finds, and
`apply_iff_serves` which content its spans make.
-/

namespace Tile

open PyStr

/-! ## Both matchers -/

/-- A way to find the text of an edit: where it starts, and the span to replace from there. -/
structure Matcher where
  starts : EditReplacement → List Nat
  spanAt : EditReplacement → Nat → Span CodePoint

/-- `_apply_exact_replacements` as a matcher: the text itself, at every place it starts. -/
def exactMatcher (content : PyStr) : Matcher where
  starts edit := findTextStarts content (normalizeToLf edit.oldText)
  spanAt edit start := {
    start
    stop := start + (normalizeToLf edit.oldText).length
    replacement := normalizeToLf edit.newText }

/-- `_apply_fuzzy_replacements` as a matcher: whole lines that agree once both
sides are normalized. -/
def lineMatcher (nfkc : PyStr → PyStr) (content : PyStr) : Matcher where
  starts edit :=
    findWindowStarts ((terminatedLines content).map (normalizeForFuzzyMatch nfkc))
      (fuzzyWindow nfkc edit)
  spanAt edit startLine :=
    let (start, stop) := windowCharSpan (terminatedLines content) startLine
      (startLine + (fuzzyWindow nfkc edit).length - 1)
      (endsWithLf ((fuzzyWindow nfkc edit).getLastD []))
    { start, stop, replacement := normalizeToLf edit.newText }

namespace Matcher

variable (m : Matcher)

/-- The text of the edit is found exactly once. -/
def Unique (edit : EditReplacement) : Prop := (m.starts edit).length = 1

instance decidableUnique (edit : EditReplacement) : Decidable (m.Unique edit) :=
  inferInstanceAs (Decidable ((m.starts edit).length = 1))

/-- The span of an edit that is found exactly once. -/
def spanOf (edit : EditReplacement) : Option (Span CodePoint) :=
  match m.starts edit with
  | [start] => some (m.spanAt edit start)
  | _ => none

/-- The spans of the edits that have one. -/
def spans (edits : List EditReplacement) : List (Span CodePoint) := edits.filterMap m.spanOf

/-- The first edit that is not found exactly once is not found at all. -/
def FirstMissing (edits : List EditReplacement) : Prop :=
  ∃ edit ∈ edits.find? fun edit => ¬ m.Unique edit, m.starts edit = []

/-- What `_match_exact_spans` and `_match_fuzzy_spans` do with one edit. -/
def matched (path : String) (totalEdits index : Nat) (edit : EditReplacement) :
    Except EditError MatchedSpan := do
  let start ← requireUniqueMatch (m.starts edit) path index totalEdits
  let span := m.spanAt edit start
  return {
    editIndex := index
    start := span.start
    stop := span.stop
    replacement := span.replacement }

/-- Both searches: match every edit, check the spans, replace them. -/
def apply (content : PyStr) (edits : List EditReplacement) (path : String) :
    Except EditError ReplacementApplication := do
  let spans ← matchSpans (m.matched path edits.length) edits path
  buildApplication content (spliceTextSpans content spans) edits.length path

/-! ### One span for every edit, or the error of the first that has none -/

variable {m}

/-- A span comes from the one place the text starts at. -/
theorem spanOf_eq_some {edit : EditReplacement} {span : Span CodePoint} :
    m.spanOf edit = some span ↔ ∃ start, m.starts edit = [start] ∧ m.spanAt edit start = span := by
  rw [spanOf]
  split <;> simp_all

/-- An edit has a span exactly when its text is found once. -/
theorem unique_iff {edit : EditReplacement} :
    m.Unique edit ↔ ∃ span, m.spanOf edit = some span := by
  rw [Unique, List.length_eq_one_iff]
  simp [spanOf_eq_some]

/-- The spans, edit by edit. -/
theorem forall₂_spanOf_iff {edits : List EditReplacement} {spans : List (Span CodePoint)} :
    List.Forall₂ (fun edit span => m.spanOf edit = some span) edits spans ↔
      (∀ edit ∈ edits, m.Unique edit) ∧ m.spans edits = spans := by
  constructor
  · intro h
    induction h with
    | nil => exact ⟨by simp, rfl⟩
    | cons hspan _ ih =>
      refine ⟨List.forall_mem_cons.mpr ⟨unique_iff.mpr ⟨_, hspan⟩, ih.1⟩, ?_⟩
      rw [Matcher.spans, List.filterMap_cons_some hspan, ← ih.2, Matcher.spans]
  · rintro ⟨hunique, rfl⟩
    induction edits with
    | nil => exact .nil
    | cons edit rest ih =>
      obtain ⟨hedit, hrest⟩ := List.forall_mem_cons.mp hunique
      obtain ⟨span, hspan⟩ := unique_iff.mp hedit
      rw [Matcher.spans, List.filterMap_cons_some hspan]
      exact .cons hspan (ih hrest)

/-- A text found once gives its span. -/
theorem matched_of_starts {edit : EditReplacement} {start : Nat} (path : String)
    (total index : Nat) (h : m.starts edit = [start]) :
    ∃ found, m.matched path total index edit = .ok found ∧ found.span = m.spanAt edit start :=
  ⟨_, by rw [matched, h]; rfl, rfl⟩

/-- A text not found once gives an error, which names a missing text exactly when it is not found at
all. -/
theorem matched_of_not_unique {edit : EditReplacement} (path : String) (total index : Nat)
    (h : ¬ m.Unique edit) :
    ∃ error, m.matched path total index edit = .error error ∧
      ((∃ p i t, error = .notFound p i t) ↔ m.starts edit = []) := by
  cases hstarts : m.starts edit with
  | nil => exact ⟨.notFound path index total, by rw [matched, hstarts]; rfl, by simp⟩
  | cons start rest =>
    cases rest with
    | nil => simp [Unique, hstarts] at h
    | cons next rest =>
      exact ⟨.duplicate path index total (rest.length + 2), by rw [matched, hstarts]; rfl, by simp⟩

/-- **What matching all edits gives**: every edit its span, or the error of the first edit that is
not found exactly once. -/
theorem mapM_matched (m : Matcher) (path : String) (total : Nat) :
    ∀ (edits : List EditReplacement) (n : Nat),
      (∀ edit ∈ edits, m.Unique edit) ∧
        (∃ found, (edits.zipIdx n).mapM (fun x => m.matched path total x.2 x.1) = .ok found ∧
          found.map (·.span) = m.spans edits) ∨
      ∃ edit ∈ edits.find? fun edit => ¬ m.Unique edit,
        ∃ error, (edits.zipIdx n).mapM (fun x => m.matched path total x.2 x.1) = .error error ∧
          ((∃ p i t, error = .notFound p i t) ↔ m.starts edit = [])
  | [], n => .inl ⟨by simp, [], rfl, rfl⟩
  | edit :: rest, n => by
    rw [List.zipIdx_cons, List.mapM_cons]
    by_cases hunique : m.Unique edit
    · obtain ⟨start, hstart⟩ := List.length_eq_one_iff.mp hunique
      obtain ⟨span, hspan, heq⟩ := matched_of_starts path total n hstart
      have hspanOf : m.spanOf edit = some span.span :=
        spanOf_eq_some.mpr ⟨start, hstart, heq.symm⟩
      rw [hspan]
      refine (mapM_matched m path total rest (n + 1)).imp ?_ ?_
      · rintro ⟨hall, found, hfound, hmap⟩
        refine ⟨List.forall_mem_cons.mpr ⟨hunique, hall⟩, span :: found, ?_, ?_⟩
        · simp only [hfound]
          rfl
        · rw [List.map_cons, hmap]
          exact (List.filterMap_cons_some hspanOf).symm
      · rintro ⟨missed, hmissed, error, herror, hkind⟩
        refine ⟨missed, ?_, error, ?_, hkind⟩
        · rw [List.find?_cons_of_neg (by simpa using hunique)]
          exact hmissed
        · simp only [herror]
          rfl
    · obtain ⟨error, herror, hkind⟩ := matched_of_not_unique path total n hunique
      refine .inr ⟨edit, ?_, error, ?_, hkind⟩
      · rw [List.find?_cons_of_pos (by simpa using hunique)]
        rfl
      · rw [herror]
        rfl

/-- The same with the overlap check behind it. -/
theorem matchSpans_cases (m : Matcher) (path : String) (total : Nat)
    (edits : List EditReplacement) :
    (∀ edit ∈ edits, m.Unique edit) ∧
      (∃ found, matchSpans (m.matched path total) edits path
          = (validateNonOverlapping found path).map (fun _ => found) ∧
        found.map (·.span) = m.spans edits) ∨
    ∃ edit ∈ edits.find? fun edit => ¬ m.Unique edit,
      ∃ error, matchSpans (m.matched path total) edits path = .error error ∧
        ((∃ p i t, error = .notFound p i t) ↔ m.starts edit = []) := by
  refine (m.mapM_matched path total edits 0).imp ?_ ?_
  · rintro ⟨hunique, found, hfound, hspans⟩
    refine ⟨hunique, found, ?_, hspans⟩
    rw [matchSpans, hfound]
    change (validateNonOverlapping found path >>= fun _ => pure found) = _
    cases validateNonOverlapping found path <;> rfl
  · rintro ⟨missed, hmissed, error, herror, hkind⟩
    refine ⟨missed, hmissed, error, ?_, hkind⟩
    rw [matchSpans, herror]
    rfl

/-! ### Applying the spans -/

variable (m)

/-- The matcher takes the content to `newContent`: it finds every edit once, the spans pass the
overlap check, and replacing them changes something. -/
structure Serves (content : PyStr) (edits : List EditReplacement) (newContent : PyStr) : Prop where
  unique : ∀ edit ∈ edits, m.Unique edit
  admits : (m.spans edits).Pairwise Span.Admits
  splice_eq : splice content (descending (m.spans edits)) = newContent
  changed : newContent ≠ content

variable {m}

/-- Where every edit is found once, none is missing. -/
theorem not_firstMissing_of_unique {edits : List EditReplacement}
    (h : ∀ edit ∈ edits, m.Unique edit) : ¬ m.FirstMissing edits := by
  rintro ⟨edit, hedit, -⟩
  have hnot := List.find?_some hedit
  simp [h edit (List.mem_of_find?_eq_some hedit)] at hnot

/-- The edit that is missing. -/
theorem FirstMissing.exists_mem {edits : List EditReplacement} (h : m.FirstMissing edits) :
    ∃ edit ∈ edits, m.starts edit = [] := by
  obtain ⟨edit, hedit, hstarts⟩ := h
  exact ⟨edit, List.mem_of_find?_eq_some hedit, hstarts⟩

/-- A lookup error is about a text that is not found at all. -/
theorem FirstMissing.of_matchSpans {edits : List EditReplacement} {path path' : String}
    {total index total' : Nat}
    (h : matchSpans (m.matched path total) edits path = .error (.notFound path' index total')) :
    m.FirstMissing edits := by
  rcases m.matchSpans_cases path total edits with
    ⟨-, found, hfound, -⟩ | ⟨missed, hmissed, error, herror, hkind⟩
  · rw [hfound] at h
    rcases rejectOverlap_cases path (found.insertionSort (·.start ≤ ·.start)) with
      ⟨hvalid, -⟩ | ⟨⟨i, j, hvalid⟩, -⟩ <;>
    simp [validateNonOverlapping, hvalid, Except.map] at h
  · obtain rfl := Except.error.inj (herror.symm.trans h)
    exact ⟨missed, hmissed, hkind.mp ⟨_, _, _, rfl⟩⟩

/-- **A matcher serves the edits or raises**, and raises a lookup error exactly when the first edit
without a unique match is not found at all. -/
theorem apply_cases {content : PyStr} {edits : List EditReplacement} (path : String)
    (hfits : ∀ span ∈ m.spans edits, span.Fits content.length) :
    (∃ application, m.apply content edits path = .ok application ∧
      m.Serves content edits application.newContent) ∨
    ∃ error, m.apply content edits path = .error error ∧
      (∀ newContent, ¬ m.Serves content edits newContent) ∧
      ((∃ p i t, error = .notFound p i t) ↔ m.FirstMissing edits) := by
  rcases m.matchSpans_cases path edits.length edits with
    ⟨hunique, found, hfound, hspans⟩ | ⟨missed, hmissed, error, herror, hkind⟩
  · have hproper : ∀ span ∈ found, span.span.start ≤ span.span.stop := fun span hspan =>
      (hfits span.span (hspans ▸ List.mem_map_of_mem hspan)).1
    have hmissing := not_firstMissing_of_unique hunique
    rcases validateNonOverlapping_cases path hproper with ⟨hvalid, hadmits⟩ | ⟨⟨i, j, hvalid⟩, hnot⟩
    · have hbuild : m.apply content edits path
          = buildApplication content (spliceTextSpans content found) edits.length path := by
        rw [apply, hfound, hvalid]
        rfl
      rw [hspans] at hadmits
      rw [spliceTextSpans_eq, hspans] at hbuild
      rw [hbuild, buildApplication]
      by_cases hchanged : content = splice content (descending (m.spans edits))
      · rw [if_pos hchanged]
        exact .inr ⟨_, rfl, fun c h => h.changed (h.splice_eq.symm.trans hchanged.symm), by
          simp [hmissing]⟩
      · rw [if_neg hchanged]
        exact .inl ⟨_, rfl, hunique, hadmits, rfl, Ne.symm hchanged⟩
    · rw [apply, hfound, hvalid]
      rw [hspans] at hnot
      exact .inr ⟨_, rfl, fun c h => hnot h.admits, by simp [hmissing]⟩
  · refine .inr ⟨error, ?_, fun c h => ?_, hkind.trans ⟨fun h => ⟨missed, hmissed, h⟩, ?_⟩⟩
    · rw [apply, herror]
      rfl
    · have hnot := List.find?_some hmissed
      simp [h.unique missed (List.mem_of_find?_eq_some hmissed)] at hnot
    · rintro ⟨edit, hedit, hstarts⟩
      obtain rfl := Option.mem_unique hedit hmissed
      exact hstarts

/-- The content that a matcher makes is the content that it serves. -/
theorem apply_iff_serves {content : PyStr} {edits : List EditReplacement} (path : String)
    (hfits : ∀ span ∈ m.spans edits, span.Fits content.length) (newContent : PyStr) :
    (∃ application, m.apply content edits path = .ok application ∧
      application.newContent = newContent) ↔ m.Serves content edits newContent := by
  rcases apply_cases path hfits with ⟨application, hok, hserves⟩ | ⟨error, herror, hnot, -⟩
  · rw [hok]
    constructor
    · rintro ⟨_, heq, rfl⟩
      obtain rfl := Except.ok.inj heq
      exact hserves
    · exact fun h => ⟨application, rfl, hserves.splice_eq.symm.trans h.splice_eq⟩
  · simp [herror, hnot]

/-- The same for the whole application: its base is the content. -/
theorem apply_eq_ok_iff {content : PyStr} {edits : List EditReplacement} (path : String)
    (hfits : ∀ span ∈ m.spans edits, span.Fits content.length)
    {application : ReplacementApplication} :
    m.apply content edits path = .ok application ↔
      application.baseContent = content ∧ m.Serves content edits application.newContent := by
  have hbase : ∀ {other}, m.apply content edits path = .ok other →
      other = { baseContent := content, newContent := other.newContent } := by
    intro other hok
    obtain ⟨spans, -, hbuild⟩ := except_bind_eq_ok.mp hok
    rw [buildApplication_eq_ok hbuild]
  constructor
  · intro hok
    exact ⟨by rw [hbase hok], (apply_iff_serves path hfits _).mp ⟨application, hok, rfl⟩⟩
  · rintro ⟨rfl, hserves⟩
    obtain ⟨other, hok, hnew⟩ := (apply_iff_serves path hfits _).mpr hserves
    rw [hok, hbase hok, hnew]

end Matcher

/-- `_apply_exact_replacements` is the exact matcher. -/
theorem applyExactReplacements_eq (content : PyStr) (edits : List EditReplacement) (path : String) :
    applyExactReplacements content edits path = (exactMatcher content).apply content edits path :=
  rfl

/-- `_apply_fuzzy_replacements` is the line matcher. -/
theorem applyFuzzyReplacements_eq (nfkc : PyStr → PyStr) (content : PyStr)
    (edits : List EditReplacement) (path : String) :
    applyFuzzyReplacements nfkc content edits path
      = (lineMatcher nfkc content).apply content edits path :=
  rfl

/-! ### Their spans lie in the content -/

/-- An exact match takes up the text of the edit, which is not empty. -/
theorem exactMatcher_fits (content : PyStr) {edits : List EditReplacement}
    (hold : ∀ edit ∈ edits, normalizeToLf edit.oldText ≠ []) :
    ∀ span ∈ (exactMatcher content).spans edits,
      span.start < span.stop ∧ span.Fits content.length := by
  intro span hspan
  obtain ⟨edit, hedit, hspan⟩ := List.mem_filterMap.mp hspan
  obtain ⟨start, hstarts, rfl⟩ := Matcher.spanOf_eq_some.mp hspan
  have hpos := List.length_pos_iff.mpr (hold edit hedit)
  have hle := findTextStarts_add_length_le (hold edit hedit) hstarts
  exact ⟨Nat.lt_add_of_pos_right hpos, Nat.le_add_right _ _, hle⟩

/-- A match of whole lines ends where its last line does, at the latest. -/
theorem lineMatcher_fits (nfkc : PyStr → PyStr) (content : PyStr) {edits : List EditReplacement}
    (hold : ∀ edit ∈ edits, normalizeToLf edit.oldText ≠ []) :
    ∀ span ∈ (lineMatcher nfkc content).spans edits, span.Fits content.length := by
  intro span hspan
  obtain ⟨edit, hedit, hspan⟩ := List.mem_filterMap.mp hspan
  obtain ⟨startLine, hstarts, rfl⟩ := Matcher.spanOf_eq_some.mp hspan
  exact windowSpan_fits (hold edit hedit) hstarts rfl

end Tile
