import Tile.Library.Simultaneous
import Tile.Tools.EditMatching
import Tile.Tools.EditOrder

/-!
# Tools/EditScan — edits made where their texts occur

Exact matching scans the content from left to right, going on behind each occurrence
(`scan_findTextStarts`).  A request is served just when the scan hits each old text once and the
occurrences are apart, and then **all edits are made at once** (`applyExactReplacements_spec`).  The
scan does not see an occurrence that overlaps the last one (`occursOnce_iff`).
-/

namespace Tile

open PyStr

/-! ## The scan -/

/-- The scan of a content for a text, from left to right: it goes on where the last occurrence
stops, to the first one from there. -/
inductive Scan (content oldText : PyStr) : (start : Nat) → List Nat → Prop where
  | done {start : Nat} (h : ∀ offset, start ≤ offset → ¬ content.OccursAt oldText offset) :
    Scan content oldText start []
  | hit {start offset : Nat} {offsets : List Nat} (hle : start ≤ offset)
    (hoccurs : content.OccursAt oldText offset)
    (hfirst : ∀ other, start ≤ other → other < offset → ¬ content.OccursAt oldText other)
    (rest : Scan content oldText (offset + oldText.length) offsets) :
    Scan content oldText start (offset :: offsets)

section Scan

variable {content oldText : PyStr}

theorem Scan.unique {start : Nat} {offsets offsets' : List Nat}
    (h : Scan content oldText start offsets) (h' : Scan content oldText start offsets') :
    offsets = offsets' := by
  induction h generalizing offsets' with
  | done hnone =>
    cases h' with
    | done _ => rfl
    | hit hle hoccurs _ _ => exact absurd hoccurs (hnone _ hle)
  | @hit start offset offsets hle hoccurs hfirst _ ih =>
    cases h' with
    | done hnone => exact absurd hoccurs (hnone _ hle)
    | @hit _ offset' _ hle' hoccurs' hfirst' hrest' =>
      obtain rfl : offset = offset' := by
        rcases Nat.lt_trichotomy offset offset' with hlt | heq | hlt
        · exact absurd hoccurs (hfirst' _ hle hlt)
        · exact heq
        · exact absurd hoccurs' (hfirst _ hle' hlt)
      rw [ih hrest']

/-- `find` returns the first occurrence. -/
theorem not_occursAt_of_lt_find : ∀ {s : PyStr} {offset : Nat}, find oldText s = some offset →
    ∀ other < offset, ¬ s.OccursAt oldText other
  | [], offset, h, other, hlt => by
    rw [find] at h
    split at h
    · obtain rfl : 0 = offset := by simpa using h
      omega
    · simp at h
  | c :: rest, offset, h, other, hlt => by
    rw [find] at h
    split at h
    · obtain rfl : 0 = offset := by simpa using h
      omega
    next hhere =>
      obtain ⟨offset', h', rfl⟩ := Option.map_eq_some_iff.mp h
      cases other with
      | zero => exact fun hoccurs => hhere (isPrefixOf_iff_occursAt.mpr hoccurs)
      | succ other =>
        exact fun hoccurs => not_occursAt_of_lt_find h' other (by omega) (occursAt_cons.mp hoccurs)

theorem findFrom_cases (hold : oldText ≠ []) (start : Nat) :
    (findFrom oldText content start = none ∧
      ∀ offset, start ≤ offset → ¬ content.OccursAt oldText offset) ∨
    ∃ offset, findFrom oldText content start = some offset ∧ start ≤ offset ∧
      content.OccursAt oldText offset ∧
      ∀ other, start ≤ other → other < offset → ¬ content.OccursAt oldText other := by
  have hshift : ∀ {other : Nat}, start ≤ other →
      (content.OccursAt oldText other ↔ OccursAt (content.drop start) oldText (other - start)) :=
    fun hle => by rw [occursAt_drop, Nat.add_sub_cancel' hle]
  cases hfind : findFrom oldText content start with
  | none =>
    refine .inl ⟨rfl, fun offset hle hoccurs => ?_⟩
    have hlength := hoccurs.add_length_le hold
    rw [findFrom, if_neg (by omega), Option.map_eq_none_iff] at hfind
    exact find_eq_none hold hfind _ ((hshift hle).mp hoccurs)
  | some offset =>
    obtain ⟨hoccurs, hle⟩ := occursAt_of_findFrom hold hfind
    refine .inr ⟨offset, rfl, hle, hoccurs, fun other hle' hlt hother => ?_⟩
    rw [findFrom] at hfind
    split at hfind
    · simp at hfind
    · obtain ⟨offset', hfind', rfl⟩ := Option.map_eq_some_iff.mp hfind
      exact not_occursAt_of_lt_find hfind' _ (by omega) ((hshift hle').mp hother)

theorem scan_textStartsFrom (hold : oldText ≠ []) {fuel start : Nat}
    (hfuel : content.length < start + fuel) :
    Scan content oldText start
      (textStartsFrom content oldText fuel (findFrom oldText content start)) := by
  induction fuel generalizing start with
  | zero =>
    refine .done fun offset hle hoccurs => ?_
    have := hoccurs.add_length_le hold
    omega
  | succ fuel ih =>
    rcases @findFrom_cases content oldText hold start with
      ⟨hnone, hnever⟩ | ⟨offset, hfind, hle, hoccurs, hfirst⟩
    · rw [hnone]
      exact .done hnever
    · rw [hfind]
      have hpos := List.length_pos_iff.mpr hold
      exact .hit hle hoccurs hfirst (ih (by omega))

/-- **The search is the scan**, and it is over before it runs out of turns. -/
theorem scan_findTextStarts (hold : oldText ≠ []) :
    Scan content oldText 0 (findTextStarts content oldText) := by
  have hfirst : find oldText content = findFrom oldText content 0 := by simp [findFrom]
  rw [findTextStarts, hfirst]
  exact scan_textStartsFrom hold (by omega)

theorem findTextStarts_eq_iff (hold : oldText ≠ []) {offsets : List Nat} :
    findTextStarts content oldText = offsets ↔ Scan content oldText 0 offsets :=
  ⟨fun h => h ▸ scan_findTextStarts hold, fun h => (scan_findTextStarts hold).unique h⟩

end Scan

/-! ## Requests -/

/-- The span of an edit whose old text the scan hits once. -/
structure HitOnce (content : PyStr) (edit : EditReplacement) (span : Span CodePoint) : Prop where
  scan : Scan content (normalizeToLf edit.oldText) 0 [span.start]
  stop : span.stop = span.start + (normalizeToLf edit.oldText).length
  replacement : span.replacement = normalizeToLf edit.newText

section Requests

variable {content : PyStr} {edits : List EditReplacement}

theorem spanOf_exactMatcher_iff {edit : EditReplacement} (hold : edit.oldText ≠ [])
    {span : Span CodePoint} :
    (exactMatcher content).spanOf edit = some span ↔ HitOnce content edit span := by
  have hlf := normalizeToLf_ne_nil hold
  rw [Matcher.spanOf_eq_some]
  constructor
  · rintro ⟨start, hstarts, rfl⟩
    exact ⟨(findTextStarts_eq_iff hlf).mp hstarts, rfl, rfl⟩
  · rintro ⟨hscan, hstop, hreplacement⟩
    refine ⟨span.start, (findTextStarts_eq_iff hlf).mpr hscan, ?_⟩
    simp only [exactMatcher, ← hstop, ← hreplacement]

theorem forall₂_hitOnce_iff (hold : ∀ edit ∈ edits, edit.oldText ≠ [])
    {spans : List (Span CodePoint)} :
    List.Forall₂ (HitOnce content) edits spans ↔
      (∀ edit ∈ edits, (exactMatcher content).Unique edit) ∧
        (exactMatcher content).spans edits = spans := by
  rw [← Matcher.forall₂_spanOf_iff]
  induction edits generalizing spans with
  | nil => simp
  | cons edit rest ih =>
    obtain ⟨hedit, hrest⟩ := List.forall_mem_cons.mp hold
    simp only [List.forall₂_cons_left_iff, ih hrest, spanOf_exactMatcher_iff hedit]

theorem serves_exact_iff (hold : ∀ edit ∈ edits, edit.oldText ≠ []) {newContent : PyStr} :
    (exactMatcher content).Serves content edits newContent ↔
      ∃ spans, List.Forall₂ (HitOnce content) edits spans ∧ spans.Pairwise Span.Disjoint ∧
        Simultaneous content spans newContent ∧ newContent ≠ content := by
  have hproper := exactMatcher_fits content fun edit hedit => normalizeToLf_ne_nil (hold edit hedit)
  have hlt : ∀ span ∈ (exactMatcher content).spans edits, span.start < span.stop :=
    fun span hspan => (hproper span hspan).1
  have hfits : ∀ span ∈ (exactMatcher content).spans edits, span.Fits content.length :=
    fun span hspan => (hproper span hspan).2
  constructor
  · rintro ⟨hunique, hadmits, rfl, hchanged⟩
    have hdisjoint := (pairwise_admits_iff hlt).mp hadmits
    exact ⟨_, (forall₂_hitOnce_iff hold).mpr ⟨hunique, rfl⟩, hdisjoint,
      simultaneous_splice hlt hfits hdisjoint, hchanged⟩
  · rintro ⟨spans, hspans, hdisjoint, hat, hchanged⟩
    obtain ⟨hunique, rfl⟩ := (forall₂_hitOnce_iff hold).mp hspans
    exact ⟨hunique, (pairwise_admits_iff hlt).mpr hdisjoint,
      (simultaneous_splice hlt hfits hdisjoint).unique hlt hdisjoint hat, hchanged⟩

theorem firstMissing_exact_iff (hold : ∀ edit ∈ edits, edit.oldText ≠ []) :
    (exactMatcher content).FirstMissing edits ↔
      ∃ before edit after, edits = before ++ edit :: after ∧
        (∀ earlier ∈ before, ∃ span, HitOnce content earlier span) ∧
        Scan content (normalizeToLf edit.oldText) 0 [] := by
  have hunique : ∀ edit ∈ edits, (exactMatcher content).Unique edit ↔
      ∃ span, HitOnce content edit span := fun edit hedit => by
    rw [Matcher.unique_iff]
    exact exists_congr fun span => spanOf_exactMatcher_iff (hold edit hedit)
  have hstarts : ∀ edit ∈ edits, (exactMatcher content).starts edit = [] ↔
      Scan content (normalizeToLf edit.oldText) 0 [] := fun edit hedit =>
    findTextStarts_eq_iff (normalizeToLf_ne_nil (hold edit hedit))
  constructor
  · rintro ⟨edit, hfind, hnone⟩
    obtain ⟨-, before, after, rfl, hbefore⟩ := List.find?_eq_some_iff_append.mp hfind
    refine ⟨before, edit, after, rfl, fun earlier hearlier => ?_, (hstarts edit (by simp)).mp hnone⟩
    exact (hunique earlier (by simp [hearlier])).mp (by simpa using hbefore earlier hearlier)
  · rintro ⟨before, edit, after, rfl, hbefore, hscan⟩
    have hnone := (hstarts edit (by simp)).mpr hscan
    refine ⟨edit, List.find?_eq_some_iff_append.mpr ⟨?_, before, after, rfl, ?_⟩, hnone⟩
    · simp [Matcher.Unique, hnone]
    · intro earlier hearlier
      simpa using (hunique earlier (by simp [hearlier])).mpr (hbefore earlier hearlier)

theorem existsUnique_simultaneous (hold : ∀ edit ∈ edits, edit.oldText ≠ [])
    {spans : List (Span CodePoint)} (hspans : List.Forall₂ (HitOnce content) edits spans)
    (hdisjoint : spans.Pairwise Span.Disjoint) :
    ∃! newContent, Simultaneous content spans newContent := by
  obtain ⟨-, rfl⟩ := (forall₂_hitOnce_iff hold).mp hspans
  have hproper := exactMatcher_fits content fun edit hedit => normalizeToLf_ne_nil (hold edit hedit)
  have hlt : ∀ span ∈ (exactMatcher content).spans edits, span.start < span.stop :=
    fun span hspan => (hproper span hspan).1
  have hat := simultaneous_splice hlt (fun span hspan => (hproper span hspan).2) hdisjoint
  exact ⟨_, hat, fun other hother => hother.unique hlt hdisjoint hat⟩

end Requests

/-- **What exact matching does with a request.**  It succeeds just when the scan hits each old text
once, the occurrences are apart, and replacing them at once changes the content; the result is the
content with all of them replaced, in whatever order the edits are listed.  Otherwise the error is a
lookup error just when the first edit that is not hit once is not hit at all. -/
theorem applyExactReplacements_spec (content : PyStr) (edits : List EditReplacement)
    (path : String) (hold : ∀ edit ∈ edits, edit.oldText ≠ []) :
    (∀ application, applyExactReplacements content edits path = .ok application ↔
      application.baseContent = content ∧ ∃ spans, List.Forall₂ (HitOnce content) edits spans ∧
        spans.Pairwise Span.Disjoint ∧ Simultaneous content spans application.newContent ∧
        application.newContent ≠ content) ∧
    (∀ spans, List.Forall₂ (HitOnce content) edits spans → spans.Pairwise Span.Disjoint →
      ∃! newContent, Simultaneous content spans newContent) ∧
    (∀ order : List EditReplacement, order.Perm edits → ∀ application,
      applyExactReplacements content order path = .ok application ↔
        applyExactReplacements content edits path = .ok application) ∧
    ∀ error, applyExactReplacements content edits path = .error error →
      ((∃ p i t, error = .notFound p i t) ↔
        ∃ before edit after, edits = before ++ edit :: after ∧
          (∀ earlier ∈ before, ∃ span, HitOnce content earlier span) ∧
          Scan content (normalizeToLf edit.oldText) 0 []) := by
  have hfits : ∀ {order : List EditReplacement}, (∀ edit ∈ order, edit.oldText ≠ []) →
      ∀ span ∈ (exactMatcher content).spans order, span.Fits content.length :=
    fun horder span hspan => (exactMatcher_fits content
      (fun edit hedit => normalizeToLf_ne_nil (horder edit hedit)) span hspan).2
  refine ⟨fun application => ?_, fun spans => existsUnique_simultaneous hold,
    fun order hperm application => ?_, fun error herror => ?_⟩
  · rw [applyExactReplacements_eq, Matcher.apply_eq_ok_iff path (hfits hold), serves_exact_iff hold]
  · have horder : ∀ edit ∈ order, edit.oldText ≠ [] := fun edit hedit =>
      hold edit (hperm.mem_iff.mp hedit)
    rw [applyExactReplacements_eq, applyExactReplacements_eq,
      Matcher.apply_eq_ok_iff path (hfits hold), Matcher.apply_eq_ok_iff path (hfits horder)]
    exact and_congr_right fun _ =>
      ⟨fun h => serves_exact_perm (fun edit hedit => normalizeToLf_ne_nil (horder edit hedit)) h
        hperm, fun h => serves_exact_perm (fun edit hedit => normalizeToLf_ne_nil (hold edit hedit))
        h hperm.symm⟩
  · rw [applyExactReplacements_eq] at herror
    rw [← firstMissing_exact_iff hold]
    rcases Matcher.apply_cases path (hfits hold) with ⟨application, hok, -⟩ | ⟨_, herror', -, hkind⟩
    · cases hok.symm.trans herror
    · obtain rfl := Except.error.inj (herror'.symm.trans herror)
      exact hkind

def words : PyStr := .ofString "a b\n"

/-- Two edits of a line, the later one listed first. -/
def wordEdits : List EditReplacement :=
  [⟨.ofString "b", .ofString "d"⟩, ⟨.ofString "a", .ofString "cc"⟩]

theorem applyExactReplacements_spec_words :
    ∃ spans, List.Forall₂ (HitOnce words) wordEdits spans ∧ spans.Pairwise Span.Disjoint ∧
      Simultaneous words spans (ofString "cc d\n") ∧ ofString "cc d\n" ≠ words :=
  have happly : applyExactReplacements words wordEdits "notes.txt"
      = .ok ⟨words, .ofString "cc d\n"⟩ := by decide +kernel
  (((applyExactReplacements_spec words wordEdits "notes.txt" (by decide +kernel)).1 _).mp happly).2

/-! ## Occurrences that overlap -/

/-- The text overlaps itself when it is moved on by `p` characters, and behind its occurrence at
this offset the content goes on the same way. -/
structure RecursAfter (content oldText : PyStr) (offset p : Nat) : Prop where
  pos : 0 < p
  lt : p < oldText.length
  border : oldText.drop p = oldText.take (oldText.length - p)
  continues : content.slice (offset + oldText.length) (offset + oldText.length + p)
    = oldText.drop (oldText.length - p)

section Overlap

variable {content oldText : PyStr} {offset : Nat}

theorem occursAt_add_iff (hold : oldText ≠ []) (hoccurs : content.OccursAt oldText offset) {p : Nat}
    (hle : p ≤ oldText.length) :
    content.OccursAt oldText (offset + p) ↔
      oldText.drop p = oldText.take (oldText.length - p) ∧
        content.slice (offset + oldText.length) (offset + oldText.length + p)
          = oldText.drop (oldText.length - p) := by
  obtain ⟨before, after, rfl, rfl⟩ := (occursAt_iff hold).mp hoccurs
  have hshifted : (before ++ oldText ++ after).slice (before.length + p)
      (before.length + p + oldText.length) = oldText.drop p ++ after.take p := by
    have hlength : (oldText.drop p).length ≤ oldText.length := by simp
    rw [slice, Nat.add_sub_cancel_left, List.append_assoc, ← List.drop_drop, List.drop_left,
      List.drop_append_of_le_length hle, List.take_append, List.take_of_length_le hlength,
      List.length_drop, Nat.sub_sub_self hle]
  have hbehind : (before ++ oldText ++ after).slice (before.length + oldText.length)
      (before.length + oldText.length + p) = after.take p := by
    rw [slice, Nat.add_sub_cancel_left, ← List.length_append, List.drop_left]
  rw [OccursAt, hshifted, hbehind]
  conv => lhs; rhs; rw [← List.take_append_drop (oldText.length - p) oldText]
  constructor
  · exact fun h => List.append_inj h (by simp)
  · rintro ⟨hdrop, htake⟩
    rw [hdrop, htake]

/-- A text that the scan hits once occurs once, unless it recurs before that occurrence is over. -/
theorem occursOnce_of_scan (hold : oldText ≠ []) (hscan : Scan content oldText 0 [offset]) :
    (∃ other, OccursOnce content oldText other) ↔ ∀ p, ¬ RecursAfter content oldText offset p := by
  cases hscan with
  | hit _ hoccurs hfirst hrest =>
    cases hrest with
    | done hbehind =>
      constructor
      · rintro ⟨other, honce⟩ p ⟨hpos, hlt, hborder, hcontinues⟩
        have hagain := (occursAt_add_iff hold hoccurs hlt.le).mpr ⟨hborder, hcontinues⟩
        have := (honce _).mp hoccurs
        have := (honce _).mp hagain
        omega
      · refine fun hnever => ⟨offset, fun other => ⟨fun hother => ?_, fun h => h ▸ hoccurs⟩⟩
        rcases Nat.lt_trichotomy other offset with hlt | heq | hlt
        · exact absurd hother (hfirst other (Nat.zero_le _) hlt)
        · exact heq
        · have hover : other < offset + oldText.length :=
            Nat.lt_of_not_le fun hle => hbehind other hle hother
          obtain ⟨p, rfl⟩ := Nat.exists_eq_add_of_le hlt.le
          obtain ⟨hborder, hcontinues⟩ := (occursAt_add_iff hold hoccurs (by omega)).mp hother
          exact absurd ⟨by omega, by omega, hborder, hcontinues⟩ (hnever p)

theorem find_of_scan (hold : oldText ≠ []) (hscan : Scan content oldText 0 [offset]) :
    find oldText content = some offset := by
  have hstarts := (findTextStarts_eq_iff hold).mpr hscan
  cases hfind : find oldText content with
  | none => simp [findTextStarts, hfind, textStartsFrom] at hstarts
  | some first =>
    rw [findTextStarts, hfind, textStartsFrom] at hstarts
    rw [(List.cons_eq_cons.mp hstarts).1]

end Overlap

/-- **When a text that is matched is unique.**  On a request that exact matching serves, every old
text occurs exactly once, overlapping occurrences included, if and only if none recurs before the
first occurrence of it is over. -/
theorem occursOnce_iff {content : PyStr} {edits : List EditReplacement} {path : String}
    {application : ReplacementApplication} (hold : ∀ edit ∈ edits, edit.oldText ≠ [])
    (h : applyExactReplacements content edits path = .ok application) :
    (∀ edit ∈ edits, ∃ offset, OccursOnce content (normalizeToLf edit.oldText) offset) ↔
      ∀ edit ∈ edits, ∀ offset ∈ find (normalizeToLf edit.oldText) content, ∀ p,
        ¬ RecursAfter content (normalizeToLf edit.oldText) offset p := by
  obtain ⟨spans, -, hmatch⟩ : ∃ spans, application.newContent = spliceTextSpans content spans ∧
      matchExactSpans content edits path = .ok spans := by
    obtain ⟨spans, hspans, hbuild⟩ := except_bind_eq_ok.mp h
    exact ⟨spans, by rw [buildApplication_eq_ok hbuild], hspans⟩
  obtain ⟨hlength, hspans, -⟩ := matchSpans_eq_ok hmatch
  refine forall₂_congr fun edit hedit => ?_
  have hlf := normalizeToLf_ne_nil (hold edit hedit)
  obtain ⟨i, hi, rfl⟩ := List.getElem_of_mem hedit
  have hspan := hspans i _ _ (List.getElem?_eq_getElem hi)
    (List.getElem?_eq_getElem (hlength ▸ hi))
  have hscan := (findTextStarts_eq_iff hlf).mp (exactSpan_eq_ok hspan).1
  rw [occursOnce_of_scan hlf hscan, find_of_scan hlf hscan]
  simp

/-- A text with two empty lines. -/
def emptyLines : PyStr := .ofString "a\n\n\nb\n"

theorem apply_emptyLines :
    applyExactReplacements emptyLines [⟨.ofString "\n\n", .ofString "\n"⟩] "notes.txt"
      = .ok ⟨emptyLines, .ofString "a\n\nb\n"⟩ := by
  decide +kernel

theorem occursOnce_iff_emptyLines :
    (∀ edit ∈ [(⟨.ofString "\n\n", .ofString "\n"⟩ : EditReplacement)],
        ∃ offset, OccursOnce emptyLines (normalizeToLf edit.oldText) offset) ↔
      ∀ edit ∈ [(⟨.ofString "\n\n", .ofString "\n"⟩ : EditReplacement)],
        ∀ offset ∈ find (normalizeToLf edit.oldText) emptyLines, ∀ p,
          ¬ RecursAfter emptyLines (normalizeToLf edit.oldText) offset p :=
  occursOnce_iff (by decide +kernel) apply_emptyLines

/-- Two newlines stand in two places, and the request is served. -/
theorem not_occursOnce_emptyLines :
    applyExactReplacements emptyLines [⟨.ofString "\n\n", .ofString "\n"⟩] "notes.txt"
        = .ok ⟨emptyLines, .ofString "a\n\nb\n"⟩ ∧
      ¬ ∃ offset, OccursOnce emptyLines (normalizeToLf (.ofString "\n\n")) offset := by
  refine ⟨apply_emptyLines, fun ⟨offset, honce⟩ => ?_⟩
  have hfirst : emptyLines.OccursAt (normalizeToLf (.ofString "\n\n")) 1 := by decide +kernel
  have hsecond : emptyLines.OccursAt (normalizeToLf (.ofString "\n\n")) 2 := by decide +kernel
  have := (honce _).mp hfirst
  have := (honce _).mp hsecond
  omega

end Tile
