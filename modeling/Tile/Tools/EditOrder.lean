import Tile.Tools.EditMatchers

/-!
# Tools/EditOrder — when the order of a request's edits matters

A request is a list of edits, all matched against the original text.  The first edit without a
unique exact match decides whether whole lines are tried at all, and spans that start together are
checked and replaced in the listed order.  `sameOutcome_iff` says which requests have **one outcome
in every order**.
-/

namespace Tile

open PyStr

/-! ## What a request yields -/

/-- The request, in this order, takes the content to `newContent`. -/
inductive Yields (nfkc : PyStr → PyStr) (content : PyStr) (edits : List EditReplacement)
    (newContent : PyStr) : Prop where
  | exactly (h : (exactMatcher content).Serves content edits newContent)
  | byLines (hmissing : (exactMatcher content).FirstMissing edits)
    (h : (lineMatcher nfkc content).Serves content edits newContent)

/-- Texts that are not empty pass the first check. -/
theorem validateNonEmptyOldText_of_forall {edits : List EditReplacement} {path : String}
    (h : ∀ edit ∈ edits, edit.oldText ≠ []) : validateNonEmptyOldText edits path = .ok () := by
  have hfind : (edits.zipIdx.find? fun x => decide (x.1.oldText = [])) = none := by
    refine List.find?_eq_none.mpr fun x hx => ?_
    simpa using h x.1 (List.fst_mem_of_mem_zipIdx hx)
  simp [validateNonEmptyOldText, hfind]

/-- An empty text is rejected, in whatever place it is asked for. -/
theorem apply_of_emptyOldText (nfkc : PyStr → PyStr) (content : PyStr) (path : String)
    {edits : List EditReplacement} {edit : EditReplacement} (hedit : edit ∈ edits)
    (hempty : edit.oldText = []) :
    ∃ error, applyReplacementsWithFallback nfkc content edits path = .error error := by
  cases h : applyReplacementsWithFallback nfkc content edits path with
  | error error => exact ⟨error, rfl⟩
  | ok application =>
    have hold := (applyReplacementsWithFallback_eq_ok h).1 edit hedit
    rw [hempty] at hold
    exact absurd (by decide) hold

/-- What a request without empty texts makes. -/
theorem apply_iff_yields {nfkc : PyStr → PyStr} {content : PyStr} {edits : List EditReplacement}
    {newContent : PyStr} (path : String) (hold : ∀ edit ∈ edits, edit.oldText ≠ []) :
    (∃ application, applyReplacementsWithFallback nfkc content edits path = .ok application ∧
      application.newContent = newContent) ↔ Yields nfkc content edits newContent := by
  have hlf : ∀ edit ∈ edits, normalizeToLf edit.oldText ≠ [] := fun edit hedit =>
    normalizeToLf_ne_nil (hold edit hedit)
  rw [applyReplacementsWithFallback, validateNonEmptyOldText_of_forall hold,
    applyExactReplacements_eq, applyFuzzyReplacements_eq]
  simp only [bind, Except.bind]
  have hexact : ∀ span ∈ (exactMatcher content).spans edits, span.Fits content.length :=
    fun span hspan => (exactMatcher_fits content hlf span hspan).2
  rcases Matcher.apply_cases path hexact with ⟨application, hok, h⟩ | ⟨error, herror, hnot, hkind⟩
  · have hserves := Matcher.apply_iff_serves path hexact newContent
    rw [hok] at hserves ⊢
    refine hserves.trans ⟨.exactly, ?_⟩
    rintro (hyields | ⟨hmissing, -⟩)
    · exact hyields
    · exact absurd hmissing (Matcher.not_firstMissing_of_unique h.unique)
  · by_cases hmissing : (exactMatcher content).FirstMissing edits
    · obtain ⟨p, i, t, rfl⟩ := hkind.mpr hmissing
      rw [herror]
      have hserves := Matcher.apply_iff_serves path (lineMatcher_fits nfkc content hlf) newContent
      refine hserves.trans ⟨.byLines hmissing, ?_⟩
      rintro (hyields | ⟨-, hyields⟩)
      · exact absurd hyields (hnot _)
      · exact hyields
    · rw [herror]
      have hno : ¬ Yields nfkc content edits newContent := by
        rintro (hyields | ⟨h, -⟩)
        · exact hnot _ hyields
        · exact hmissing h
      cases error with
      | notFound p i t => exact absurd (hkind.mp ⟨p, i, t, rfl⟩) hmissing
      | _ => simp [hno]

/-! ## One outcome in every order -/

/-- Both fail, or both succeed with the same new content. -/
def SameOutcome : (a b : Except EditError ReplacementApplication) → Prop
  | .ok a, .ok b => a.newContent = b.newContent
  | .error _, .error _ => True
  | _, _ => False

/-- The same outcome: the same contents are made. -/
theorem sameOutcome_iff_forall {a b : Except EditError ReplacementApplication} :
    SameOutcome a b ↔ ∀ newContent, (∃ x, a = .ok x ∧ x.newContent = newContent) ↔
      ∃ y, b = .ok y ∧ y.newContent = newContent := by
  cases a <;> cases b <;> simp [SameOutcome]

/-- The order of these edits does not matter. -/
inductive OrderFree (nfkc : PyStr → PyStr) (content : PyStr) (edits : List EditReplacement) :
    Prop where
  /-- Some old text is empty. -/
  | emptyOldText {edit : EditReplacement} (hedit : edit ∈ edits) (hempty : edit.oldText = [])
  /-- Every old text occurs in the content. -/
  | found (h : ∀ edit ∈ edits, (exactMatcher content).starts edit ≠ [])
  /-- No old text occurs twice, and the line windows can be interchanged. -/
  | interchange (honce : ∀ edit ∈ edits, ((exactMatcher content).starts edit).length ≤ 1)
    (h : ((lineMatcher nfkc content).spans edits).Pairwise Span.Interchange)
  /-- In whatever order lines are tried, the windows that pass the overlap check are replaced by
  what stands there. -/
  | idle (h : ∀ order : List EditReplacement, order.Perm edits →
      (exactMatcher content).FirstMissing order →
      (∀ edit ∈ order, (lineMatcher nfkc content).Unique edit) →
      ((lineMatcher nfkc content).spans order).Pairwise Span.Admits →
      splice content (descending ((lineMatcher nfkc content).spans order)) = content)

/-- A relation of any two items that can come first holds of all pairs. -/
theorem pairwise_of_perm_cons_cons {α : Type} {R : α → α → Prop} :
    ∀ {items : List α}, (∀ a b rest, (a :: b :: rest).Perm items → R a b) → items.Pairwise R
  | [], _ => .nil
  | a :: rest, h => by
    refine List.pairwise_cons.mpr ⟨fun b hb => ?_, pairwise_of_perm_cons_cons fun b c tail hperm =>
      h b c (a :: tail) ?_⟩
    · obtain ⟨before, after, rfl⟩ := List.append_of_mem hb
      exact h a b (before ++ after) (List.perm_middle.symm.cons a)
    · exact ((List.Perm.swap a c tail).cons b).trans ((List.Perm.swap a b _).trans (hperm.cons a))

/-- The spans come in the order of the edits. -/
theorem Matcher.spans_perm {m : Matcher} {edits edits' : List EditReplacement}
    (h : edits.Perm edits') : (m.spans edits).Perm (m.spans edits') :=
  h.filterMap _

/-- Spans that can change places serve in any order. -/
theorem Matcher.Serves.perm {m : Matcher} {content newContent : PyStr}
    {edits edits' : List EditReplacement} (h : m.Serves content edits newContent)
    (hperm : edits.Perm edits') (hcomm : (m.spans edits).Pairwise Span.Interchange)
    (hfits : ∀ span ∈ m.spans edits, span.Fits content.length) :
    m.Serves content edits' newContent where
  unique edit hedit := h.unique edit (hperm.mem_iff.mpr hedit)
  admits := ((spans_perm hperm).pairwise_iff fun h => h.symm).mp hcomm |>.imp fun h =>
    (Span.apart_iff.mp h.1).1
  splice_eq := (splice_descending_perm (spans_perm hperm) hcomm hfits).symm.trans h.splice_eq
  changed := h.changed

section OrderFree

variable {nfkc : PyStr → PyStr} {content newContent : PyStr} {edits order order' :
  List EditReplacement}

/-- Exact spans that pass the overlap check can be interchanged: none of them is empty. -/
theorem serves_exact_perm (hold : ∀ edit ∈ edits, normalizeToLf edit.oldText ≠ [])
    (h : (exactMatcher content).Serves content edits newContent) (hperm : edits.Perm order) :
    (exactMatcher content).Serves content order newContent := by
  have hfits := exactMatcher_fits content hold
  refine h.perm hperm (h.admits.imp_of_mem fun {a b} ha hb hadmits => ?_) fun span hspan =>
    (hfits span hspan).2
  have ha := (hfits a ha).1
  have hb := (hfits b hb).1
  unfold Span.Admits at hadmits
  refine ⟨⟨fun hle => ?_, fun hle => ?_⟩, fun heq => ?_⟩ <;> split at hadmits <;> omega

/-- Where no text is found twice, a missing one is the first without a unique match. -/
theorem firstMissing_of_once {m : Matcher} (honce : ∀ edit ∈ edits, (m.starts edit).length ≤ 1)
    {edit : EditReplacement} (hedit : edit ∈ edits) (hmissing : m.starts edit = []) :
    m.FirstMissing edits := by
  cases hfind : edits.find? fun edit => ¬ m.Unique edit with
  | none =>
    have hunique := List.find?_eq_none.mp hfind edit hedit
    simp [Matcher.Unique, hmissing] at hunique
  | some first =>
    have hnot : ¬ m.Unique first := by simpa using List.find?_some hfind
    have hle := honce first (List.mem_of_find?_eq_some hfind)
    refine ⟨first, hfind, List.length_eq_zero_iff.mp ?_⟩
    rw [Matcher.Unique] at hnot
    omega

/-- A request that is free of order makes the same in every order. -/
theorem Yields.of_orderFree (hfree : OrderFree nfkc content edits)
    (hold : ∀ edit ∈ edits, edit.oldText ≠ []) (horder : order.Perm edits)
    (horder' : order'.Perm edits) (h : Yields nfkc content order newContent) :
    Yields nfkc content order' newContent := by
  have hperm : order.Perm order' := horder.trans horder'.symm
  have hlf : ∀ edit ∈ order, normalizeToLf edit.oldText ≠ [] := fun edit hedit =>
    normalizeToLf_ne_nil (hold edit (horder.mem_iff.mp hedit))
  cases h with
  | exactly h => exact .exactly (serves_exact_perm hlf h hperm)
  | byLines hmissing h =>
    obtain ⟨missing, hmem, hstarts⟩ := hmissing.exists_mem
    cases hfree with
    | emptyOldText hedit hempty => exact absurd hempty (hold _ hedit)
    | found hfound => exact absurd hstarts (hfound missing (horder.mem_iff.mp hmem))
    | interchange honce hcomm =>
      refine .byLines (firstMissing_of_once (fun edit hedit => honce edit
        (horder'.mem_iff.mp hedit)) (hperm.mem_iff.mp hmem) hstarts) ?_
      exact h.perm hperm
        (((Matcher.spans_perm horder).pairwise_iff fun h => h.symm).mpr hcomm)
        (lineMatcher_fits nfkc content hlf)
    | idle hidle =>
      exact absurd (h.splice_eq.symm.trans (hidle order horder hmissing h.unique h.admits))
        h.changed

theorem spans_cons {m : Matcher} {edit : EditReplacement} {span : Span CodePoint}
    (h : m.spanOf edit = some span) : m.spans (edit :: edits) = span :: m.spans edits :=
  List.filterMap_cons_some h

/-- A text found twice would come first in some order. -/
theorem starts_length_le_one {m : Matcher}
    (h : ∀ order : List EditReplacement, order.Perm edits → m.FirstMissing order) :
    ∀ edit ∈ edits, (m.starts edit).length ≤ 1 := by
  intro edit hedit
  by_contra hlt
  obtain ⟨before, after, rfl⟩ := List.append_of_mem hedit
  obtain ⟨first, hfirst, hstarts⟩ := h (edit :: (before ++ after)) List.perm_middle.symm
  have hunique : ¬ m.Unique edit := by
    rw [Matcher.Unique]
    omega
  rw [List.find?_cons_of_pos (by simpa using hunique)] at hfirst
  obtain rfl := Option.some.inj hfirst
  simp [hstarts] at hlt

/-- Edits that are served alike in every order have windows that can be interchanged. -/
theorem interchange_of_serves {m : Matcher}
    (hfits : ∀ span ∈ m.spans edits, span.Fits content.length)
    (h : ∀ order : List EditReplacement, order.Perm edits →
      m.Serves content order newContent) :
    (m.spans edits).Pairwise Span.Interchange := by
  have hapart : (m.spans edits).Pairwise Span.Apart := by
    refine List.pairwise_filterMap.mpr (pairwise_of_perm_cons_cons fun a b rest hperm => ?_)
    intro s hs t ht
    have hab := (h _ hperm).admits
    have hba := (h _ ((List.Perm.swap a b rest).trans hperm)).admits
    rw [spans_cons hs, spans_cons ht] at hab
    rw [spans_cons ht, spans_cons hs] at hba
    exact Span.apart_iff.mpr ⟨(List.pairwise_cons.mp hab).1 t (List.mem_cons_self ..),
      (List.pairwise_cons.mp hba).1 s (List.mem_cons_self ..)⟩
  refine List.pairwise_filterMap.mpr (pairwise_of_perm_cons_cons fun a b rest hperm => ?_)
  intro s hs t ht
  have hspans := Matcher.spans_perm (m := m) hperm
  have happly := (h _ hperm).splice_eq.trans
    (h _ ((List.Perm.swap a b rest).trans hperm)).splice_eq.symm
  have hperm' := (hspans.pairwise_iff fun h => h.symm).mpr hapart
  have hfits' : ∀ span ∈ m.spans (a :: b :: rest), span.Fits content.length :=
    fun span hspan => hfits span (hspans.mem_iff.mp hspan)
  rw [spans_cons hs, spans_cons ht] at hperm' hfits' happly
  rw [spans_cons ht, spans_cons hs] at happly
  exact ⟨(List.pairwise_cons.mp hperm').1 t (List.mem_cons_self ..),
    fun hstart => commute_of_splice_eq hstart hperm' hfits' happly⟩

/-- A request that makes the same in every order is free of order. -/
theorem orderFree_of_yields (hold : ∀ edit ∈ edits, edit.oldText ≠ [])
    (h : ∀ order : List EditReplacement, order.Perm edits → ∀ newContent,
      Yields nfkc content edits newContent ↔ Yields nfkc content order newContent) :
    OrderFree nfkc content edits := by
  by_cases hfound : ∀ edit ∈ edits, (exactMatcher content).starts edit ≠ []
  · exact .found hfound
  obtain ⟨missing, hmem, hstarts⟩ : ∃ edit ∈ edits, (exactMatcher content).starts edit = [] := by
    simpa using hfound
  by_cases hyields : ∃ newContent, Yields nfkc content edits newContent
  · -- every order is served by lines
    obtain ⟨newContent, hyields⟩ := hyields
    have hlines : ∀ order : List EditReplacement, order.Perm edits →
        (exactMatcher content).FirstMissing order ∧
          (lineMatcher nfkc content).Serves content order newContent := by
      intro order hperm
      cases (h order hperm newContent).mp hyields with
      | exactly hexact =>
        have hunique := hexact.unique missing (hperm.mem_iff.mpr hmem)
        simp [Matcher.Unique, hstarts] at hunique
      | byLines hmissing hserves => exact ⟨hmissing, hserves⟩
    have hlf : ∀ edit ∈ edits, normalizeToLf edit.oldText ≠ [] := fun edit hedit =>
      normalizeToLf_ne_nil (hold edit hedit)
    exact .interchange (starts_length_le_one fun order hperm => (hlines order hperm).1)
      (interchange_of_serves (lineMatcher_fits nfkc content hlf) fun order hperm =>
        (hlines order hperm).2)
  · refine .idle fun order hperm hmissing hunique hadmits => ?_
    by_contra hchanged
    exact hyields ⟨_, (h order hperm _).mpr (.byLines hmissing ⟨hunique, hadmits, rfl, hchanged⟩)⟩

end OrderFree

/-- **When the order of edits does not matter.**  Every order of a request has the same outcome just
in case one of the conditions of `OrderFree` holds. -/
theorem sameOutcome_iff (nfkc : PyStr → PyStr) (content : PyStr) (edits : List EditReplacement)
    (path : String) :
    (∀ permuted : List EditReplacement, permuted.Perm edits →
      SameOutcome (applyReplacementsWithFallback nfkc content edits path)
        (applyReplacementsWithFallback nfkc content permuted path)) ↔
      OrderFree nfkc content edits := by
  by_cases hold : ∀ edit ∈ edits, edit.oldText ≠ []
  · have hyields : ∀ permuted : List EditReplacement, permuted.Perm edits →
        (SameOutcome (applyReplacementsWithFallback nfkc content edits path)
          (applyReplacementsWithFallback nfkc content permuted path) ↔
        ∀ newContent, Yields nfkc content edits newContent ↔
          Yields nfkc content permuted newContent) := by
      intro permuted hperm
      have hold' : ∀ edit ∈ permuted, edit.oldText ≠ [] := fun edit hedit =>
        hold edit (hperm.mem_iff.mp hedit)
      simp only [sameOutcome_iff_forall, apply_iff_yields path hold, apply_iff_yields path hold']
    constructor
    · exact fun h => orderFree_of_yields hold fun order hperm =>
        (hyields order hperm).mp (h order hperm)
    · exact fun hfree permuted hperm => (hyields permuted hperm).mpr fun newContent =>
        ⟨Yields.of_orderFree hfree hold (List.Perm.refl _) hperm,
          Yields.of_orderFree hfree hold hperm (List.Perm.refl _)⟩
  · obtain ⟨edit, hedit, hempty⟩ : ∃ edit ∈ edits, edit.oldText = [] := by simpa using hold
    refine ⟨fun _ => .emptyOldText hedit hempty, fun _ permuted hperm => ?_⟩
    obtain ⟨error, herror⟩ := apply_of_emptyOldText nfkc content path hedit hempty
    obtain ⟨error', herror'⟩ :=
      apply_of_emptyOldText nfkc content path (hperm.mem_iff.mpr hedit) hempty
    rw [herror, herror']
    trivial

/-- A text with `foo` in two places, one of them a whole line, and a line in curly quotes. -/
def repeated : PyStr := .ofString "foo bar\nfoo\n\u201cq\u201d\n"

/-- A text that is found twice, and one that only whole lines match. -/
def repeatedEdits : List EditReplacement :=
  [⟨.ofString "foo", .ofString "X"⟩, ⟨.ofString "\"q\"", .ofString "Y"⟩]

/-- An edit found twice is an error when it comes first, and replaced where it is a whole line when
it comes after an edit that is not found. -/
theorem repeatedEdits_outcomes :
    applyReplacementsWithFallback id repeated repeatedEdits "notes.txt"
        = .error (.duplicate "notes.txt" 0 2 2) ∧
      applyReplacementsWithFallback id repeated repeatedEdits.reverse "notes.txt"
        = .ok ⟨repeated, .ofString "foo bar\nX\nY\n"⟩ ∧
      ¬ ∀ permuted : List EditReplacement, permuted.Perm repeatedEdits →
        SameOutcome (applyReplacementsWithFallback id repeated repeatedEdits "notes.txt")
          (applyReplacementsWithFallback id repeated permuted "notes.txt") := by
  have hfirst : applyReplacementsWithFallback id repeated repeatedEdits "notes.txt"
      = .error (.duplicate "notes.txt" 0 2 2) := by decide +kernel
  have hreverse : applyReplacementsWithFallback id repeated repeatedEdits.reverse "notes.txt"
      = .ok ⟨repeated, .ofString "foo bar\nX\nY\n"⟩ := by decide +kernel
  refine ⟨hfirst, hreverse, fun h => ?_⟩
  have hsame := h repeatedEdits.reverse (List.reverse_perm _)
  rw [hfirst, hreverse] at hsame
  exact hsame

/-- Two edits whose windows are one empty line are both made, the later one first. -/
example :
    (applyReplacementsWithFallback id (.ofString "\nfoo\n")
        [⟨.ofString " ", .ofString "A"⟩, ⟨.ofString "\t", .ofString "B"⟩] "notes.txt").map
          (·.newContent) = .ok (.ofString "BA\nfoo\n") ∧
      (applyReplacementsWithFallback id (.ofString "\nfoo\n")
        [⟨.ofString "\t", .ofString "B"⟩, ⟨.ofString " ", .ofString "A"⟩] "notes.txt").map
          (·.newContent) = .ok (.ofString "AB\nfoo\n") := by decide +kernel

end Tile
