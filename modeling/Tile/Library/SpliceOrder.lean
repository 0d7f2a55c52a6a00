import Mathlib.Data.List.Chain
import Mathlib.Data.List.Sort
import Tile.Library.Splice

/-!
# Library/SpliceOrder — when the order of a list of spans matters

Spans are listed in some order, checked from the first start to the last, and replaced from the last
to the first; sorting keeps the listed order of equal starts.  The check passes when every span
**admits** those listed after it (`pairwise_ascending_iff`).  Spans that can be **interchanged**
give one result in every order (`splice_descending_perm`), and two that give the same in both
orders can be (`commute_of_splice_eq`).
-/

namespace Tile

variable {α : Type u}

section Stable

variable {r P : α → α → Prop} [DecidableRel r] [IsTrans α r]

theorem pairwise_orderedInsert_iff {a : α} {sorted : List α} (h : sorted.Pairwise r) :
    (sorted.orderedInsert r a).Pairwise P ↔
      (∀ b ∈ sorted, if r a b then P a b else P b a) ∧ sorted.Pairwise P := by
  induction sorted with
  | nil => simp
  | cons b rest ih =>
    obtain ⟨hb, hrest⟩ := List.pairwise_cons.mp h
    by_cases hab : r a b
    · have hall : ∀ c ∈ b :: rest, r a c :=
        List.forall_mem_cons.mpr ⟨hab, fun c hc => IsTrans.trans a b c hab (hb c hc)⟩
      rw [List.orderedInsert_cons_of_le r rest hab, List.pairwise_cons]
      exact and_congr_left fun _ => forall₂_congr fun c hc => by rw [if_pos (hall c hc)]
    · rw [List.orderedInsert_of_not_le r rest hab, List.pairwise_cons, ih hrest,
        List.forall_mem_cons, if_neg hab, List.pairwise_cons]
      simp only [List.mem_orderedInsert, forall_eq_or_imp]
      tauto

/-- **Sorting is stable**: of two elements, the one that must come first does, and the one that is
listed first where neither must. -/
theorem pairwise_insertionSort_iff (as : List α) [Std.Total (α := α) r] :
    (as.insertionSort r).Pairwise P ↔ as.Pairwise fun a b => if r a b then P a b else P b a := by
  induction as with
  | nil => simp
  | cons a as ih =>
    rw [List.insertionSort_cons, pairwise_orderedInsert_iff (List.pairwise_insertionSort r as), ih,
      List.pairwise_cons]
    simp only [List.mem_insertionSort]

end Stable

/-! ## Passing the check -/

instance Span.isTrans_start : IsTrans (Span α) fun a b => a.start ≤ b.start :=
  ⟨fun _ _ _ => Nat.le_trans⟩

instance Span.total_start : Std.Total (α := Span α) fun a b => a.start ≤ b.start :=
  ⟨fun a b => Nat.le_total a.start b.start⟩

instance Span.isTrans_start_ge : IsTrans (Span α) fun a b => b.start ≤ a.start :=
  ⟨fun _ _ _ h h' => Nat.le_trans h' h⟩

instance Span.total_start_ge : Std.Total (α := Span α) fun a b => b.start ≤ a.start :=
  ⟨fun a b => Nat.le_total b.start a.start⟩

/-- The spans from the first start to the last, in the listed order where starts are equal. -/
def ascending (spans : List (Span α)) : List (Span α) :=
  spans.insertionSort fun a b => a.start ≤ b.start

/-- The spans from the last start to the first, in the listed order where starts are equal. -/
def descending (spans : List (Span α)) : List (Span α) :=
  spans.insertionSort fun a b => b.start ≤ a.start

theorem perm_descending (spans : List (Span α)) : (descending spans).Perm spans :=
  List.perm_insertionSort _ spans

theorem pairwise_descending (spans : List (Span α)) :
    (descending spans).Pairwise fun a b => b.start ≤ a.start :=
  List.pairwise_insertionSort (fun a b : Span α => b.start ≤ a.start) spans

/-- A span passes the check with one that is listed after it. -/
def Span.Admits (a b : Span α) : Prop :=
  if a.start ≤ b.start then a.stop ≤ b.start else b.stop ≤ a.start

/-- Two spans pass the check whichever is listed first. -/
def Span.Apart (a b : Span α) : Prop :=
  (a.start ≤ b.start → a.stop ≤ b.start) ∧ (b.start ≤ a.start → b.stop ≤ a.start)

theorem Span.Apart.symm {a b : Span α} (h : a.Apart b) : b.Apart a := ⟨h.2, h.1⟩

theorem Span.apart_iff {a b : Span α} : a.Apart b ↔ a.Admits b ∧ b.Admits a := by
  unfold Span.Apart Span.Admits
  rcases Nat.lt_trichotomy a.start b.start with hlt | heq | hlt
  · simp [hlt.le, hlt.not_ge]
  · simp [heq]
  · simp [hlt.le, hlt.not_ge]

theorem Span.Admits.disjoint {a b : Span α} (h : a.Admits b) : a.Disjoint b := by
  unfold Span.Admits at h
  split at h
  · exact .inl h
  · exact .inr h

theorem pairwise_ascending_iff {spans : List (Span α)} :
    ((ascending spans).Pairwise fun a b => a.stop ≤ b.start) ↔ spans.Pairwise Span.Admits :=
  pairwise_insertionSort_iff spans

/-- The check may look at neighbours only. -/
theorem pairwise_of_isChain {spans : List (Span α)}
    (hproper : ∀ span ∈ spans, span.start ≤ span.stop)
    (h : spans.IsChain fun a b => a.stop ≤ b.start) :
    spans.Pairwise fun a b => a.stop ≤ b.start := by
  induction h with
  | nil => exact .nil
  | singleton _ => exact List.pairwise_singleton ..
  | @cons_cons a b rest hab _ ih =>
    have hb := hproper b (by simp)
    have hrest := ih fun span hspan => hproper span (List.mem_cons_of_mem _ hspan)
    refine List.pairwise_cons.mpr ⟨fun c hc => ?_, hrest⟩
    rcases List.mem_cons.mp hc with rfl | hc
    · exact hab
    · exact hab.trans (hb.trans ((List.pairwise_cons.mp hrest).1 c hc))

/-! ## One result in every order -/

/-- Two spans pass the check in either order, and at one start their replacements may be swapped. -/
def Span.Interchange (a b : Span α) : Prop :=
  a.Apart b ∧ (a.start = b.start →
    a.replacement ++ b.replacement = b.replacement ++ a.replacement)

theorem Span.Interchange.symm {a b : Span α} (h : a.Interchange b) : b.Interchange a :=
  ⟨h.1.symm, fun hstart => (h.2 hstart.symm).symm⟩

theorem Span.apply_insert {span : Span α} {before after : List α}
    (hstart : span.start = before.length) (hstop : span.stop = before.length) :
    span.apply (before ++ after) = before ++ (span.replacement ++ after) := by
  rw [Span.apply, hstart, hstop, List.take_left, List.drop_left, List.append_assoc]

/-- Spans that may be listed in either order and start together are both empty. -/
theorem Span.Apart.stop_eq {a b : Span α} (h : a.Apart b) (hstart : a.start = b.start)
    (ha : a.start ≤ a.stop) : a.stop = a.start :=
  Nat.le_antisymm ((h.1 hstart.le).trans hstart.ge) ha

theorem Span.Interchange.apply_comm {a b : Span α} {items : List α} (h : a.Interchange b)
    (hstart : a.start = b.start) (ha : a.start ≤ a.stop) (hb : b.start ≤ b.stop)
    (hle : a.start ≤ items.length) : a.apply (b.apply items) = b.apply (a.apply items) := by
  have hlength : (items.take a.start).length = a.start := List.length_take_of_le hle
  have hastop := h.1.stop_eq hstart ha
  have hbstop := h.1.symm.stop_eq hstart.symm hb
  rw [← List.take_append_drop a.start items, b.apply_insert (by omega) (by omega),
    a.apply_insert (by omega) (by omega), a.apply_insert (by omega) (by omega),
    b.apply_insert (by omega) (by omega), ← List.append_assoc a.replacement, h.2 hstart,
    List.append_assoc]

theorem Span.start_le_length_apply {span : Span α} {items : List α} {start : Nat}
    (hle : start ≤ items.length) (hstart : start ≤ span.start) (hproper : span.start ≤ span.stop) :
    start ≤ (span.apply items).length := by
  simp only [Span.apply, List.length_append, List.length_take, List.length_drop]
  omega

/-- A span may be brought before others that start where it does. -/
theorem splice_bring_forward {a : Span α} {before after : List (Span α)} {items : List α}
    (hcomm : ∀ b ∈ before, b.Interchange a) (hstart : ∀ b ∈ before, b.start = a.start)
    (hproper : ∀ b ∈ before, b.start ≤ b.stop) (ha : a.start ≤ a.stop)
    (hle : a.start ≤ items.length) :
    splice items (before ++ a :: after) = splice items (a :: (before ++ after)) := by
  induction before generalizing items with
  | nil => rfl
  | cons b before ih =>
    rw [List.forall_mem_cons] at hcomm hstart hproper
    calc splice items (b :: before ++ a :: after)
        = splice (b.apply items) (before ++ a :: after) := rfl
      _ = splice (b.apply items) (a :: (before ++ after)) :=
          ih hcomm.2 hstart.2 hproper.2 (b.start_le_length_apply hle hstart.1.ge hproper.1)
      _ = splice (a.apply (b.apply items)) (before ++ after) := rfl
      _ = splice (b.apply (a.apply items)) (before ++ after) := by
          rw [hcomm.1.symm.apply_comm hstart.1.symm ha hproper.1 hle]

theorem splice_eq_of_perm {spans spans' : List (Span α)} {items : List α}
    (hperm : spans.Perm spans') (hsorted : spans.Pairwise fun a b => b.start ≤ a.start)
    (hsorted' : spans'.Pairwise fun a b => b.start ≤ a.start)
    (hcomm : spans.Pairwise Span.Interchange)
    (hfits : ∀ span ∈ spans, span.start ≤ span.stop ∧ span.start ≤ items.length) :
    splice items spans = splice items spans' := by
  induction spans' generalizing spans items with
  | nil => rw [hperm.eq_nil]
  | cons a rest ih =>
    obtain ⟨before, after, rfl⟩ := List.append_of_mem (hperm.mem_iff.mpr (List.mem_cons_self ..))
    have hrest : (before ++ after).Perm rest := (List.perm_middle.symm.trans hperm).cons_inv
    have hsub : (before ++ after).Sublist (before ++ a :: after) :=
      (List.sublist_cons_self a after).append_left before
    have hfirst := (List.pairwise_cons.mp hsorted').1
    have ha := hfits a (by simp)
    have hbefore : ∀ b ∈ before, b.start = a.start := fun b hb =>
      Nat.le_antisymm (hfirst b (hrest.mem_iff.mp (List.mem_append_left _ hb)))
        ((List.pairwise_append.mp hsorted).2.2 b hb a (List.mem_cons_self ..))
    rw [splice_bring_forward
      (fun b hb => (List.pairwise_append.mp hcomm).2.2 b hb a (List.mem_cons_self ..)) hbefore
      (fun b hb => (hfits b (List.mem_append_left _ hb)).1) ha.1 ha.2]
    refine ih hrest (hsorted.sublist hsub)
      (List.pairwise_cons.mp hsorted').2 (hcomm.sublist hsub) fun b hb => ?_
    obtain ⟨hproper, hle⟩ := hfits b (hsub.subset hb)
    exact ⟨hproper, a.start_le_length_apply hle (hfirst b (hrest.mem_iff.mp hb)) ha.1⟩

/-- **Spans that can be interchanged** give one result, whatever order they are listed in. -/
theorem splice_descending_perm {spans spans' : List (Span α)} {items : List α}
    (hperm : spans.Perm spans') (hcomm : spans.Pairwise Span.Interchange)
    (hfits : ∀ span ∈ spans, span.Fits items.length) :
    splice items (descending spans) = splice items (descending spans') := by
  have hsort := perm_descending spans
  refine splice_eq_of_perm (hsort.trans (hperm.trans (perm_descending spans').symm))
    (pairwise_descending spans) (pairwise_descending spans')
    ((hsort.pairwise_iff fun h => h.symm).mpr hcomm) fun span hspan => ?_
  obtain ⟨hproper, hle⟩ := hfits span (hsort.mem_iff.mp hspan)
  exact ⟨hproper, hproper.trans hle⟩

/-! ## Two results in two orders -/

/-- Spans that lie in the first part leave the second part alone. -/
theorem splice_append {before after : List α} {spans : List (Span α)}
    (hfits : ∀ span ∈ spans, span.Fits before.length)
    (hspans : spans.Pairwise fun a b => b.stop ≤ a.start) :
    splice (before ++ after) spans = splice before spans ++ after := by
  induction spans generalizing before with
  | nil => rfl
  | cons a rest ih =>
    obtain ⟨⟨hproper, hle⟩, hrest⟩ := List.forall_mem_cons.mp hfits
    obtain ⟨hfirst, hspans⟩ := List.pairwise_cons.mp hspans
    have happly : a.apply (before ++ after) = a.apply before ++ after := by
      rw [Span.apply, Span.apply, List.take_append_of_le_length (hproper.trans hle),
        List.drop_append_of_le_length hle, List.append_assoc _ _ after]
    rw [splice, List.foldl_cons, happly]
    exact ih (fun b hb => ⟨(hrest b hb).1, (hfirst b hb).trans
      (a.start_le_length_apply (hproper.trans hle) (Nat.le_refl _) hproper)⟩) hspans

/-- Spans that start later leave everything up to there alone. -/
theorem splice_append_of_le {before : List α} (after : List α) {spans : List (Span α)}
    (hproper : ∀ span ∈ spans, span.start ≤ span.stop)
    (hstart : ∀ span ∈ spans, before.length ≤ span.start) :
    ∃ rest, splice (before ++ after) spans = before ++ rest := by
  induction spans generalizing after with
  | nil => exact ⟨after, rfl⟩
  | cons a rest ih =>
    obtain ⟨ha, hproper⟩ := List.forall_mem_cons.mp hproper
    obtain ⟨hle, hstart⟩ := List.forall_mem_cons.mp hstart
    have happly : a.apply (before ++ after) = before ++ (after.take (a.start - before.length)
        ++ a.replacement ++ after.drop (a.stop - before.length)) := by
      rw [Span.apply, List.take_append, List.take_of_length_le hle, List.drop_append,
        List.drop_eq_nil_of_le (hle.trans ha)]
      simp
    rw [splice, List.foldl_cons, happly]
    exact ih _ hproper hstart

theorem exists_append_of_sorted {spans : List (Span α)}
    (h : spans.Pairwise fun a b => b.start ≤ a.start) (start : Nat) :
    ∃ late early, spans = late ++ early ∧ (∀ span ∈ late, start < span.start) ∧
      ∀ span ∈ early, span.start ≤ start := by
  induction spans with
  | nil => exact ⟨[], [], rfl, by simp, by simp⟩
  | cons a rest ih =>
    obtain ⟨hfirst, hrest⟩ := List.pairwise_cons.mp h
    by_cases ha : start < a.start
    · obtain ⟨late, early, rfl, hlate, hearly⟩ := ih hrest
      exact ⟨a :: late, early, rfl, List.forall_mem_cons.mpr ⟨ha, hlate⟩, hearly⟩
    · have ha := Nat.le_of_not_lt ha
      exact ⟨[], a :: rest, rfl, by simp,
        List.forall_mem_cons.mpr ⟨ha, fun b hb => (hfirst b hb).trans ha⟩⟩

theorem orderedInsert_append {r : α → α → Prop} [DecidableRel r] {a : α} {before after : List α}
    (h : ∀ b ∈ before, ¬ r a b) :
    (before ++ after).orderedInsert r a = before ++ after.orderedInsert r a := by
  induction before with
  | nil => rfl
  | cons b before ih =>
    obtain ⟨hb, hbefore⟩ := List.forall_mem_cons.mp h
    rw [List.cons_append, List.orderedInsert_of_not_le r _ hb, ih hbefore, List.cons_append]

/-- Two spans listed first that start together stand side by side once sorted. -/
theorem descending_cons_cons {a b : Span α} (rest : List (Span α)) (hstart : a.start = b.start) :
    ∃ late early, descending rest = late ++ early ∧
      (∀ span ∈ late, a.start < span.start) ∧ (∀ span ∈ early, span.start ≤ a.start) ∧
      descending (a :: b :: rest) = late ++ a :: b :: early ∧
      descending (b :: a :: rest) = late ++ b :: a :: early := by
  obtain ⟨late, early, hsorted, hlate, hearly⟩ :=
    exists_append_of_sorted (pairwise_descending rest) a.start
  have hinsert : ∀ c : Span α, c.start = a.start → ∀ {spans : List (Span α)},
      (∀ span ∈ spans, span.start ≤ a.start) →
      (late ++ spans).orderedInsert (fun a b => b.start ≤ a.start) c = late ++ c :: spans := by
    intro c hc spans hspans
    rw [orderedInsert_append fun span hspan => by have := hlate span hspan; omega]
    cases spans with
    | nil => rfl
    | cons d spans =>
      rw [List.orderedInsert_cons_of_le _ _ (hc ▸ hspans d (List.mem_cons_self ..))]
  have hcons : ∀ c : Span α, c.start = a.start → ∀ span ∈ c :: early, span.start ≤ a.start :=
    fun c hc => List.forall_mem_cons.mpr ⟨hc.le, hearly⟩
  refine ⟨late, early, hsorted, hlate, hearly, ?_, ?_⟩
  · rw [descending, List.insertionSort_cons, List.insertionSort_cons, ← descending, hsorted,
      hinsert b hstart.symm hearly, hinsert a rfl (hcons b hstart.symm)]
  · rw [descending, List.insertionSort_cons, List.insertionSort_cons, ← descending, hsorted,
      hinsert a rfl hearly, hinsert b hstart.symm (hcons a rfl)]

/-- **Two spans with one result in both orders** can be interchanged. -/
theorem commute_of_splice_eq {a b : Span α} {rest : List (Span α)} {items : List α}
    (hstart : a.start = b.start) (hapart : (a :: b :: rest).Pairwise Span.Apart)
    (hfits : ∀ span ∈ a :: b :: rest, span.Fits items.length)
    (h : splice items (descending (a :: b :: rest)) = splice items (descending (b :: a :: rest))) :
    a.replacement ++ b.replacement = b.replacement ++ a.replacement := by
  obtain ⟨late, early, hsorted, hlate, hearly, hab, hba⟩ := descending_cons_cons rest hstart
  simp only [List.forall_mem_cons] at hfits
  obtain ⟨⟨haproper, hastop⟩, ⟨hbproper, -⟩, hrest⟩ := hfits
  simp only [List.pairwise_cons, List.forall_mem_cons] at hapart
  obtain ⟨⟨hab', harest⟩, -, hrestApart⟩ := hapart
  have hsort := perm_descending rest
  have hmem : ∀ span ∈ late ++ early, span ∈ rest := fun span hspan =>
    hsort.mem_iff.mp (hsorted ▸ hspan)
  -- the later spans leave what comes before the two, and the earlier ones what comes after
  have hbefore : (items.take a.start).length = a.start :=
    List.length_take_of_le (haproper.trans hastop)
  have hearlyStop : ∀ span ∈ early, span.Fits (items.take a.start).length := fun span hspan => by
    have hspan' := hmem span (List.mem_append_right _ hspan)
    exact ⟨(hrest span hspan').1, hbefore.symm ▸ (harest span hspan').2 (hearly span hspan)⟩
  have hearlyPairwise : early.Pairwise fun a b => b.stop ≤ a.start := by
    have hdescending := (pairwise_descending rest).and
      ((hsort.pairwise_iff fun h => h.symm).mpr hrestApart)
    rw [hsorted] at hdescending
    exact (List.pairwise_append.mp hdescending).2.1.imp fun h => h.2.2 h.1
  obtain ⟨after, hlateSplice⟩ : ∃ after,
      splice (items.take a.start ++ items.drop a.start) late = items.take a.start ++ after :=
    splice_append_of_le _ (fun span hspan => (hrest span (hmem span
      (List.mem_append_left _ hspan))).1) fun span hspan => hbefore.symm ▸ (hlate span hspan).le
  rw [List.take_append_drop] at hlateSplice
  have hkey : ∀ x y : Span α, x.start = a.start → x.stop = a.start → y.start = a.start →
      y.stop = a.start → splice items (late ++ x :: y :: early)
        = splice (items.take a.start) early ++ (y.replacement ++ (x.replacement ++ after)) := by
    intro x y hx hx' hy hy'
    calc splice items (late ++ x :: y :: early)
        = splice (splice items late) (x :: y :: early) := List.foldl_append
      _ = splice (y.apply (x.apply (items.take a.start ++ after))) early := by
          rw [hlateSplice]
          rfl
      _ = splice (items.take a.start ++ (y.replacement ++ (x.replacement ++ after))) early := by
          rw [x.apply_insert (by omega) (by omega), y.apply_insert (by omega) (by omega)]
      _ = _ := splice_append hearlyStop hearlyPairwise
  have hastop' := hab'.stop_eq hstart haproper
  have hbstop' := hab'.symm.stop_eq hstart.symm hbproper
  rw [hab, hba, hkey a b rfl hastop' hstart.symm (hbstop'.trans hstart.symm),
    hkey b a hstart.symm (hbstop'.trans hstart.symm) rfl hastop', List.append_cancel_left_eq,
    ← List.append_assoc, ← List.append_assoc, List.append_cancel_right_eq] at h
  exact h.symm

end Tile
