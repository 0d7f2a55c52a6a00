import Tile.Tools.EditScan
import Tile.Tools.Files
import Tile.Tools.ReadText

/-!
# Tools/ReadEdit — a text that was read can be edited

`read` shows a file as `edit` loads it, with the byte order mark in front if there is one
(`shown_eq_loadText`).  A text that stands once in what was shown is therefore found by `edit`,
**unless it begins with the mark of the file** (`edit_replaces_shown_iff`).
-/

namespace Tile

open PyStr

/-! ## What is shown and what is loaded -/

theorem loadText_of_mark {raw : PyStr} (h : BOM.isPrefixOf raw = true) :
    (loadText raw).bom = BOM ∧ normalizeToLf raw = BOM ++ (loadText raw).content := by
  obtain ⟨rest, rfl⟩ := List.isPrefixOf_iff_prefix.mp h
  exact ⟨rfl, normalizeToLf_cons (by decide) rest⟩

theorem loadText_of_not_mark {raw : PyStr} (h : ¬ BOM.isPrefixOf raw = true) :
    (loadText raw).bom = [] ∧ normalizeToLf raw = (loadText raw).content := by
  rw [loadText, stripBom, if_neg h]
  exact ⟨rfl, rfl⟩

/-- **The text that is shown is the mark and the loaded text.** -/
theorem shown_eq_loadText {data : Bytes} {raw : PyStr} {shown : Text}
    (hdecode : Utf8.decode data = some raw)
    (hshown : Read.selectedText data (some 1) = some shown) :
    shown.points = (loadText raw).bom ++ (loadText raw).content := by
  rw [Read.points_of_selectedText hdecode hshown]
  by_cases h : BOM.isPrefixOf raw = true
  · rw [(loadText_of_mark h).1, (loadText_of_mark h).2]
  · rw [(loadText_of_not_mark h).1, (loadText_of_not_mark h).2]
    rfl

/-! ## One edit -/

section OneEdit

variable {c : CodePoint} {content text newText : PyStr} {offset : Nat}

theorem OccursOnce.tail (h : OccursOnce (c :: content) text (offset + 1)) :
    OccursOnce content text offset := fun other => by
  rw [← occursAt_cons, h (other + 1), Nat.add_right_cancel_iff]

theorem OccursOnce.not_occursAt_tail (h : OccursOnce (c :: content) text 0) (other : Nat) :
    ¬ content.OccursAt text other := fun hother =>
  Nat.succ_ne_zero other ((h (other + 1)).mp (occursAt_cons.mpr hother))

theorem OccursOnce.scan (htext : text ≠ []) (h : OccursOnce content text offset) :
    Scan content text 0 [offset] := by
  refine .hit (Nat.zero_le offset) ((h offset).mpr rfl) (fun other _ hlt hother => ?_)
    (.done fun other hle hother => ?_)
  · exact hlt.ne ((h other).mp hother)
  · have hpos := List.length_pos_iff.mpr htext
    have heq := (h other).mp hother
    omega

theorem matchSpans_singleton (spanOf : Nat → EditReplacement → Except EditError MatchedSpan)
    (edit : EditReplacement) (path : String) :
    matchSpans spanOf [edit] path = (spanOf 0 edit).map ([·]) := by
  rw [matchSpans, List.zipIdx_singleton, List.mapM_cons, List.mapM_nil]
  cases hspan : spanOf 0 edit <;> simp only [hspan] <;> rfl

/-- **A text that stands once is replaced where it stands.** -/
theorem applyExactReplacements_once {before after : PyStr} (path : String) (htext : text ≠ [])
    (hlf : normalizeToLf text = text) (hnew : normalizeToLf newText ≠ text)
    (h : OccursOnce (before ++ text ++ after) text before.length) :
    applyExactReplacements (before ++ text ++ after) [⟨text, newText⟩] path
      = .ok ⟨before ++ text ++ after, before ++ normalizeToLf newText ++ after⟩ := by
  have hstarts := (findTextStarts_eq_iff htext).mpr (h.scan htext)
  have hspan : exactSpan (before ++ text ++ after) path 1 0 ⟨text, newText⟩
      = .ok ⟨0, before.length, before.length + text.length, normalizeToLf newText⟩ := by
    simp only [exactSpan, hlf, hstarts]
    rfl
  have hmatch : matchExactSpans (before ++ text ++ after) [⟨text, newText⟩] path
      = .ok [⟨0, before.length, before.length + text.length, normalizeToLf newText⟩] := by
    rw [matchExactSpans, matchSpans_singleton, List.length_singleton, hspan]
    rfl
  have hsplice : spliceTextSpans (before ++ text ++ after)
      [⟨0, before.length, before.length + text.length, normalizeToLf newText⟩]
        = before ++ normalizeToLf newText ++ after := by
    simp [spliceTextSpans]
  have hchanged : before ++ text ++ after ≠ before ++ normalizeToLf newText ++ after := by
    simpa [List.append_cancel_left_eq] using Ne.symm hnew
  rw [applyExactReplacements, hmatch]
  change buildApplication _ (spliceTextSpans _ _) 1 path = _
  rw [hsplice, buildApplication, if_neg hchanged]

end OneEdit

/-! ## Editing what was read -/

/-- The text stands in the loaded file, and a call of `edit` with it finds it by exact matching,
succeeds and leaves the file with it replaced. -/
def Edit.Replaces (nfkc : PyStr → PyStr) (unifiedDiff : PyStr → PyStr → String → PyStr)
    (data : Bytes) (raw text newText : PyStr) (path : String) : Prop :=
  ∃ before after written, (loadText raw).content = before ++ text ++ after ∧
    let newContent := before ++ normalizeToLf newText ++ after
    applyExactReplacements (loadText raw).content [⟨text, newText⟩] path
      = .ok ⟨(loadText raw).content, newContent⟩ ∧
    Utf8.encode (restoredText (loadText raw) newContent) = some written ∧
    Edit.fn nfkc unifiedDiff {} path [⟨text, newText⟩] (some data) = (.ok {
      text := s!"Successfully replaced {1} block(s) in {path}."
      diff := some (unifiedDiff (loadText raw).content newContent path) }, some written)

/-- A new text is written unless it has a surrogate. -/
theorem encode_restoredText_isSome_iff {data : Bytes} {raw before text after newText : PyStr}
    (hdecode : Utf8.decode data = some raw)
    (hcontent : (loadText raw).content = before ++ text ++ after) :
    (Utf8.encode (restoredText (loadText raw)
      (before ++ normalizeToLf newText ++ after))).isSome = true ↔
      (Utf8.encode newText).isSome = true := by
  have hraw := Utf8.not_isSurrogate_of_decode hdecode
  have hne : ∀ {c : CodePoint}, IsSurrogate c → c ≠ cr ∧ c ≠ lf := by
    rintro c hc
    constructor <;> (rintro rfl; exact absurd hc (by decide))
  have hloaded : ∀ c, c ∈ (loadText raw).content → ¬ IsSurrogate c := by
    intro c hc hsurrogate
    obtain ⟨hcr, hlf⟩ := hne hsurrogate
    change c ∈ normalizeToLf (stripBom raw).2 at hc
    rw [mem_normalizeToLf_iff hcr hlf, stripBom] at hc
    split at hc
    · exact hraw c (List.mem_of_mem_drop hc) hsurrogate
    · exact hraw c hc hsurrogate
  have hbom : ∀ c ∈ (loadText raw).bom, ¬ IsSurrogate c := by
    intro c hc
    by_cases hmark : BOM.isPrefixOf raw = true
    · rw [(loadText_of_mark hmark).1] at hc
      obtain rfl := List.mem_singleton.mp hc
      decide
    · rw [(loadText_of_not_mark hmark).1] at hc
      exact absurd hc List.not_mem_nil
  simp only [hcontent, List.mem_append] at hloaded
  rw [Utf8.encode_isSome_iff, Utf8.encode_isSome_iff]
  constructor
  · intro h c hc hsurrogate
    obtain ⟨hcr, hlf⟩ := hne hsurrogate
    refine h c ?_ hsurrogate
    simp [restoredText, mem_restoreLineEndings_iff hcr hlf, mem_normalizeToLf_iff hcr hlf, hc]
  · intro h c hc hsurrogate
    obtain ⟨hcr, hlf⟩ := hne hsurrogate
    simp only [restoredText, List.mem_append, mem_restoreLineEndings_iff hcr hlf,
      mem_normalizeToLf_iff hcr hlf] at hc
    rcases hc with hc | (hc | hc) | hc
    · exact hbom c hc hsurrogate
    · exact hloaded c (.inl (.inl hc)) hsurrogate
    · exact h c hc hsurrogate
    · exact hloaded c (.inr hc) hsurrogate

theorem Edit.replaces_of_occursOnce {data : Bytes} {raw text newText : PyStr} {offset : Nat}
    (nfkc : PyStr → PyStr) (unifiedDiff : PyStr → PyStr → String → PyStr) (path : String)
    (hdecode : Utf8.decode data = some raw) (htext : text ≠ [])
    (hlf : normalizeToLf text = text) (hnew : normalizeToLf newText ≠ text)
    (hencodable : (Utf8.encode newText).isSome = true)
    (h : OccursOnce (loadText raw).content text offset) :
    Edit.Replaces nfkc unifiedDiff data raw text newText path := by
  obtain ⟨before, after, hcontent, rfl⟩ := (occursAt_iff htext).mp ((h offset).mpr rfl)
  have happly := applyExactReplacements_once path htext hlf hnew (hcontent ▸ h)
  rw [← hcontent] at happly
  have hvalid : validateNonEmptyOldText [⟨text, newText⟩] path = .ok () :=
    validateNonEmptyOldText_of_forall (by simpa using htext)
  obtain ⟨written, hwritten⟩ := Option.isSome_iff_exists.mp
    ((encode_restoredText_isSome_iff hdecode hcontent).mpr hencodable)
  refine ⟨before, after, written, hcontent, happly, hwritten, ?_⟩
  have hfallback : applyReplacementsWithFallback nfkc (loadText raw).content [⟨text, newText⟩] path
      = .ok ⟨(loadText raw).content, before ++ normalizeToLf newText ++ after⟩ := by
    rw [applyReplacementsWithFallback, hvalid]
    simp only [happly]
    rfl
  have hread : readText {} (some data) = (.ok raw, some data) := by
    rw [readText_eq, hdecode]
  have hlift : (Effect.lift fun _ => (applyReplacementsWithFallback nfkc (loadText raw).content
      [⟨text, newText⟩] path).mapError FileError.edit : FileAccess _) (some data)
        = (.ok ⟨(loadText raw).content, before ++ normalizeToLf newText ++ after⟩, some data) := by
    rw [hfallback]
    rfl
  have hwrite : writeText {} (restoredText (loadText raw)
      (before ++ normalizeToLf newText ++ after)) (some data) = (.ok (), some written) := by
    rw [writeText, Effect.bind_of_ok (osCall_ok () _), Effect.bind_of_ok (Effect.modify_apply ..),
      hwritten]
    rfl
  rw [Edit.fn, Effect.bind_of_ok (osCall_ok _ _), bind_pure_apply, editFile,
    Effect.bind_of_ok hread, Effect.bind_of_ok hlift, bind_pure_apply, hwrite]
  rfl

/-- **When a text that was read can be edited.**  A text that stands at one offset of what `read`
shows of a text file is found and replaced by `edit`, unless it begins with the byte order mark of
the file: `read` shows the mark, and `edit` takes it off before it looks.  A new text that cannot be
encoded is not written. -/
theorem edit_replaces_shown_iff {data : Bytes} {raw : PyStr} {shown : Text}
    (hdecode : Utf8.decode data = some raw) (hshown : Read.selectedText data (some 1) = some shown)
    {text newText : PyStr} {offset : Nat} (htext : text ≠ [])
    (honce : OccursOnce shown.points text offset) (hnew : normalizeToLf newText ≠ text)
    (nfkc : PyStr → PyStr) (unifiedDiff : PyStr → PyStr → String → PyStr) (path : String) :
    Edit.Replaces nfkc unifiedDiff data raw text newText path ↔
      ¬ (BOM.isPrefixOf raw = true ∧ offset = 0) ∧ (Utf8.encode newText).isSome = true := by
  rw [Read.points_of_selectedText hdecode hshown] at honce
  have hlf : normalizeToLf text = text := by
    refine normalizeToLf_of_not_mem fun hcr => not_mem_normalizeToLf raw ?_
    obtain ⟨before, after, hraw, -⟩ := (occursAt_iff htext).mp ((honce offset).mpr rfl)
    rw [hraw]
    exact List.mem_append_left after (List.mem_append_right before hcr)
  have hreplaces : ∀ {k : Nat}, OccursOnce (loadText raw).content text k →
      (Edit.Replaces nfkc unifiedDiff data raw text newText path ↔
        (Utf8.encode newText).isSome = true) := by
    refine fun hoccurs => ⟨?_, fun hencodable =>
      Edit.replaces_of_occursOnce nfkc unifiedDiff path hdecode htext hlf hnew hencodable hoccurs⟩
    rintro ⟨before, after, written, hcontent, -, hwritten, -⟩
    rw [← encode_restoredText_isSome_iff hdecode hcontent, hwritten]
    rfl
  by_cases hmark : BOM.isPrefixOf raw = true
  · rw [(loadText_of_mark hmark).2] at honce
    rcases offset with - | offset
    · refine iff_of_false ?_ fun h => h.1 ⟨hmark, rfl⟩
      rintro ⟨before, after, written, hcontent, -⟩
      exact honce.not_occursAt_tail _ ((occursAt_iff htext).mpr ⟨before, after, hcontent, rfl⟩)
    · rw [hreplaces honce.tail]
      exact (and_iff_right fun h => Nat.succ_ne_zero offset h.2).symm
  · rw [(loadText_of_not_mark hmark).2] at honce
    rw [hreplaces honce]
    exact (and_iff_right fun h => hmark h.1).symm

/-- A file of two lines behind a byte order mark. -/
def markedFile : Bytes := [0xEF, 0xBB, 0xBF, 0x61, 0x0D, 0x0A, 0x62, 0x0A]

def markedText : PyStr := .ofString "\uFEFFa\r\nb\n"

theorem selectedText_markedFile :
    Read.selectedText markedFile (some 1) = some "\uFEFFa\nb\n".toList := by
  decide +kernel

theorem edit_replaces_shown_iff_markedFile :
    Edit.Replaces id (fun _ _ _ => []) markedFile markedText (.ofString "a\nb") (.ofString "c")
      "notes.txt" :=
  (edit_replaces_shown_iff (by decide +kernel) selectedText_markedFile (by decide +kernel)
    (OccursOnce.of_forall_lt (by decide +kernel) (by decide +kernel) (by decide +kernel))
    (by decide +kernel) id (fun _ _ _ => []) "notes.txt").mpr
      ⟨fun h => Nat.one_ne_zero h.2, by decide +kernel⟩

/-- The first line as it was shown stands once in the shown text, and `edit` does not find it. -/
theorem edit_misses_mark :
    Read.selectedText markedFile (some 1) = some "\uFEFFa\nb\n".toList ∧
      OccursOnce (Text.points "\uFEFFa\nb\n".toList) (.ofString "\uFEFFa") 0 ∧
      Edit.fn id (fun _ _ _ => []) {} "notes.txt" [⟨.ofString "\uFEFFa", .ofString "c"⟩]
        (some markedFile) = (.error (.edit (.notFound "notes.txt" 0 1)), some markedFile) ∧
      ¬ Edit.Replaces id (fun _ _ _ => []) markedFile markedText (.ofString "\uFEFFa")
        (.ofString "c") "notes.txt" := by
  refine ⟨selectedText_markedFile, .of_forall_lt (by decide +kernel) (by decide +kernel)
    (by decide +kernel), by decide +kernel, ?_⟩
  rintro ⟨before, after, written, -, happly, -⟩
  have hmissed : applyExactReplacements (loadText markedText).content
      [⟨.ofString "\uFEFFa", .ofString "c"⟩] "notes.txt" = .error (.notFound "notes.txt" 0 1) := by
    decide +kernel
  cases happly.symm.trans hmissed

end Tile
