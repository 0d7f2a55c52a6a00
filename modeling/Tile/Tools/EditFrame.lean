import Tile.Tools.EditSpans

/-!
# Tools/EditFrame — what an edit leaves of the file

Outside the matched regions, an edited file should hold the original's own characters.  It does so
**exactly when every line terminator out there has the one style the tool detected**
(`edit_keepsOutside_iff`): restoration writes that style over all of them.
-/

namespace Tile

open PyStr

/-- The original text of a file, token by token, without its BOM. -/
def originalTokens (raw : PyStr) : List PyStr := tokens (stripBom raw).2

theorem loadText_content (raw : PyStr) :
    (loadText raw).content = (originalTokens raw).map tokenChar := normalizeToLf_eq _

/-- The edited file keeps the original outside the spans: there is a text for each span that stands
there in the edited content, and, in the file's line endings, in the edited file, between the
original's own tokens. -/
def KeepsOutside (raw : PyStr) (spans : List MatchedSpan) (written : PyStr) : Prop :=
  ∃ fill : Nat → PyStr,
    Woven (loadText raw).content (spans.map (·.span)) fill
      (spliceTextSpans (loadText raw).content spans) ∧
    written = (loadText raw).bom ++ weave (Outside (spans.map (·.span)))
      (fun i => restoreLineEndings (fill i) (loadText raw).lineEnding) (fun token => token) 0
      (originalTokens raw)

/-- Every terminator outside the spans has the detected style. -/
def UniformOutside (raw : PyStr) (spans : List MatchedSpan) : Prop :=
  ∀ i token, (originalTokens raw)[i]? = some token → Outside (spans.map (·.span)) i →
    IsTerminator token → token = (loadText raw).lineEnding.text

theorem restore_tokenChar {s token : PyStr} (h : token ∈ tokens s) (style : LineEnding) :
    restoreLineEndings [tokenChar token] style
      = if IsTerminator token then style.text else token := by
  rw [restoreLineEndings_eq, List.flatMap_singleton, tokenChar]
  rcases token_cases h with rfl | ⟨c, rfl⟩
  · simp [IsTerminator]
  · by_cases hc : IsTerminator [c]
    · simp [hc]
    · have hlf : c ≠ lf := fun hlf => hc (.inr (.inr (by rw [hlf])))
      simp [hc, hlf]

/-- Restoration is uniform in length: an LF file never grows back, a CRLF file never shrinks. -/
theorem restore_tokenChar_length {s token : PyStr} (h : token ∈ tokens s) :
    (restoreLineEndings [tokenChar token] .lf).length ≤ token.length ∧
      token.length ≤ (restoreLineEndings [tokenChar token] .crlf).length := by
  rw [restore_tokenChar h, restore_tokenChar h]
  rcases token_cases h with rfl | ⟨c, rfl⟩
  · simp [IsTerminator, LineEnding.text]
  · split <;> simp [LineEnding.text]

/-- Writing the detected style over every kept terminator changes nothing exactly when they all
have it. -/
theorem weave_restore_iff {s : PyStr} {keep : Nat → Prop} [DecidablePred keep] (fill : Nat → PyStr)
    (style : LineEnding) :
    weave keep fill (fun token => restoreLineEndings [tokenChar token] style) 0 (tokens s)
        = weave keep fill (fun token => token) 0 (tokens s) ↔
      ∀ i token, (tokens s)[i]? = some token → keep i → IsTerminator token →
        token = style.text := by
  have hpieces : ∀ token ∈ tokens s,
      (restoreLineEndings [tokenChar token] style = token ↔
        (IsTerminator token → token = style.text)) := fun token htoken => by
    rw [restore_tokenChar htoken]
    split
    · next hterminator => exact ⟨fun h _ => h.symm, fun h => (h hterminator).symm⟩
    · next hterminator => exact iff_of_true rfl fun h => absurd h hterminator
  have hpointwise : (∀ k token, (tokens s)[k]? = some token → keep (0 + k) →
      restoreLineEndings [tokenChar token] style = token) ↔
      ∀ i token, (tokens s)[i]? = some token → keep i → IsTerminator token →
        token = style.text := by
    simp only [Nat.zero_add]
    exact forall_congr' fun k => forall_congr' fun token => forall_congr' fun hk =>
      imp_congr_right fun _ => hpieces token (List.mem_of_getElem? hk)
  cases style with
  | lf => exact (weave_inj fun token h => (restore_tokenChar_length h).1).trans hpointwise
  | crlf =>
    rw [eq_comm, weave_inj fun token h => (restore_tokenChar_length h).2, ← hpointwise]
    exact forall_congr' fun k => forall_congr' fun token => imp_congr_right fun _ =>
      imp_congr_right fun _ => eq_comm

theorem restoredText_of_woven {raw newContent : PyStr} {spans : List MatchedSpan}
    {fill : Nat → PyStr} (h : Woven (loadText raw).content (spans.map (·.span)) fill newContent) :
    restoredText (loadText raw) newContent = (loadText raw).bom
      ++ weave (Outside (spans.map (·.span)))
        (fun i => restoreLineEndings (fill i) (loadText raw).lineEnding)
        (fun token => restoreLineEndings [tokenChar token] (loadText raw).lineEnding) 0
        (originalTokens raw) := by
  rw [restoredText, h.2, restoreLineEndings_eq, weave_flatMap, loadText_content, weave_map]
  simp only [← restoreLineEndings_eq]

theorem keepsOutside_iff {raw : PyStr} {spans : List MatchedSpan}
    (hspans : ProperSpans spans (loadText raw).content.length) :
    KeepsOutside raw spans
        (restoredText (loadText raw) (spliceTextSpans (loadText raw).content spans)) ↔
      UniformOutside raw spans := by
  constructor
  · rintro ⟨fill, hwoven, hwritten⟩
    rw [restoredText_of_woven hwoven, List.append_cancel_left_eq] at hwritten
    exact (weave_restore_iff _ _).mp hwritten
  · intro huniform
    obtain ⟨fill, hwoven⟩ := hspans.splice_woven
    refine ⟨fill, hwoven, ?_⟩
    rw [restoredText_of_woven hwoven, List.append_cancel_left_eq]
    exact (weave_restore_iff _ _).mpr huniform

/-- **An edit keeps the file outside its regions, exactly if the terminators there are uniform.**
A request that succeeds was served with some spans; the file it writes holds the original outside
them if and only if every line terminator outside them has the style of the first line ending. -/
theorem edit_keepsOutside_iff {nfkc : PyStr → PyStr} {raw : PyStr}
    {replacements : List EditReplacement} {path : String} {written : PyStr}
    (h : editedText nfkc raw replacements path = .ok written) :
    ∃ spans, servedSpans nfkc (loadText raw).content replacements path = .ok spans ∧
      (KeepsOutside raw spans written ↔ UniformOutside raw spans) := by
  obtain ⟨application, happly, h⟩ := except_bind_eq_ok.mp h
  obtain ⟨-, spans, hserved, hproper, rfl⟩ := applyReplacementsWithFallback_eq_ok happly
  obtain rfl := Except.ok.inj h
  exact ⟨spans, hserved, keepsOutside_iff hproper⟩

/-- A file of one CRLF and two LF lines, edited in its first. -/
def mixedEndings : PyStr := .ofString "one\r\ntwo\nthree\n"

def editOne : List EditReplacement := [⟨.ofString "one", .ofString "ONE"⟩]

theorem edit_keepsOutside_iff_mixedEndings :
    ∃ spans, servedSpans id (loadText mixedEndings).content editOne "notes.txt" = .ok spans ∧
      (KeepsOutside mixedEndings spans (.ofString "ONE\r\ntwo\r\nthree\r\n") ↔
        UniformOutside mixedEndings spans) :=
  edit_keepsOutside_iff (by decide +kernel)

/-- The two LF lines of the file were left alone by the request, and came back as CRLF lines. -/
theorem edit_rewrites_mixedEndings :
    editedText id mixedEndings editOne "notes.txt" = .ok (.ofString "ONE\r\ntwo\r\nthree\r\n") ∧
      servedSpans id (loadText mixedEndings).content editOne "notes.txt"
        = .ok [⟨0, 0, 3, .ofString "ONE"⟩] ∧
      ¬ KeepsOutside mixedEndings [⟨0, 0, 3, .ofString "ONE"⟩]
        (.ofString "ONE\r\ntwo\r\nthree\r\n") := by
  refine ⟨by decide +kernel, by decide +kernel, fun hkeeps => ?_⟩
  have hproper : ProperSpans [⟨0, 0, 3, .ofString "ONE"⟩] (loadText mixedEndings).content.length :=
    ⟨by simp [MatchedSpan.span, Span.Fits]; decide +kernel, List.pairwise_singleton ..⟩
  have huniform := (keepsOutside_iff hproper).mp (by
    have hwritten : restoredText (loadText mixedEndings) (spliceTextSpans
        (loadText mixedEndings).content [⟨0, 0, 3, .ofString "ONE"⟩])
          = .ofString "ONE\r\ntwo\r\nthree\r\n" := by decide +kernel
    rwa [hwritten])
  exact absurd (huniform 7 [lf] (by decide +kernel) (by decide +kernel) (by decide +kernel))
    (by decide +kernel)

end Tile
