import Tile.Library.SpliceOrder

/-!
# Library/Simultaneous — replacing spans at once

Replacing spans at once keeps all that lies outside them and puts their replacements where they
start, those of empty spans first.  Replacing them one after the other comes to the same, except
where an empty span starts together with one that is not: then the second drops what the first has
put there (`simultaneous_iff`).
-/

namespace Tile

variable {α : Type u}

/-- The spans are replaced at once: at every position stand the replacements of the spans that start
there, in an order in which the spans can lie side by side. -/
def Simultaneous (items : List α) (spans : List (Span α)) (result : List α) : Prop :=
  ∃ fill : Nat → List α,
    (∀ i, ∃ order : List (Span α), order.Perm (spans.filter (·.start = i)) ∧
      order.Pairwise (fun a b => a.stop ≤ b.start) ∧ fill i = order.flatMap (·.replacement)) ∧
    result = weave (Outside spans) fill (fun a => [a]) 0 items

/-! ## The fills -/

theorem weave_fill_inj {keep : Nat → Prop} [DecidablePred keep] {fill fill' : Nat → List α}
    {items : List α} {i : Nat} (hlength : ∀ j, (fill j).length = (fill' j).length) :
    weave keep fill (fun a => [a]) i items = weave keep fill' (fun a => [a]) i items ↔
      ∀ k ≤ items.length, fill (i + k) = fill' (i + k) := by
  induction items generalizing i with
  | nil => simp [weave]
  | cons a rest ih =>
    rw [weave, weave, List.append_assoc, List.append_assoc]
    constructor
    · intro h
      obtain ⟨hhead, htail⟩ := List.append_inj h (hlength i)
      have hrest := ih.mp (List.append_cancel_left htail)
      intro k hk
      cases k with
      | zero => exact hhead
      | succ k =>
        have := hrest k (by simpa using hk)
        rwa [Nat.add_right_comm, Nat.add_assoc] at this
    · intro h
      have hhead := h 0 (Nat.zero_le _)
      rw [Nat.add_zero] at hhead
      rw [hhead, ih.mpr fun k hk => ?_]
      have := h (k + 1) (by simpa using hk)
      rwa [Nat.add_right_comm, Nat.add_assoc]

theorem filter_orderedInsert_start (a : Span α) (spans : List (Span α)) (i : Nat) :
    (spans.orderedInsert (fun a b => b.start ≤ a.start) a).filter (·.start = i)
      = (a :: spans).filter (·.start = i) := by
  induction spans with
  | nil => rfl
  | cons b rest ih =>
    by_cases hle : b.start ≤ a.start
    · rw [List.orderedInsert_cons_of_le (fun a b : Span α => b.start ≤ a.start) rest hle]
    · rw [List.orderedInsert_of_not_le (fun a b : Span α => b.start ≤ a.start) rest hle,
        List.filter_cons, ih]
      -- the two spans change places, but only one of them can start there
      by_cases ha : a.start = i
      · have hb : ¬ b.start = i := by omega
        simp [ha, hb]
      · simp [ha, List.filter_cons]

/-- Spans that start together keep their order. -/
theorem filter_descending (spans : List (Span α)) (i : Nat) :
    (descending spans).filter (·.start = i) = spans.filter (·.start = i) := by
  induction spans with
  | nil => rfl
  | cons a rest ih =>
    rw [descending, List.insertionSort_cons, filter_orderedInsert_start, List.filter_cons,
      List.filter_cons, ← descending, ih]

/-- The fill at a position comes of the spans that start there. -/
theorem foldl_refill (items : List α) (spans : List (Span α)) (fill : Nat → List α) (i : Nat) :
    spans.foldl (Span.refill items) fill i
      = (spans.filter (·.start = i)).foldl (Span.put items) (fill i) := by
  induction spans generalizing fill with
  | nil => rfl
  | cons a rest ih =>
    rw [List.foldl_cons, ih, List.filter_cons]
    by_cases ha : a.start = i
    · subst ha
      simp [Span.refill]
    · simp [ha, Span.refill, Function.update_of_ne (Ne.symm ha)]

/-! ## One position -/

section Put

variable {items : List α}

theorem Span.put_of_empty {span : Span α} (h : span.stop = span.start) (before : List α) :
    span.put items before = span.replacement ++ before := by
  simp [Span.put, Span.covered, h]

theorem Span.length_put {span : Span α} (h : span.Fits items.length) (before : List α) :
    (span.put items before).length = span.replacement.length + before.length := by
  have hstop := h.2
  simp [Span.put, Span.covered]
  omega

/-- Empty spans put their replacements in front of each other. -/
theorem foldl_put_of_empty {spans : List (Span α)} (h : ∀ span ∈ spans, span.stop = span.start)
    (before : List α) :
    spans.foldl (Span.put items) before = spans.reverse.flatMap (·.replacement) ++ before := by
  induction spans generalizing before with
  | nil => rfl
  | cons a rest ih =>
    obtain ⟨ha, hrest⟩ := List.forall_mem_cons.mp h
    rw [List.foldl_cons, ih hrest, a.put_of_empty ha]
    simp

theorem length_foldl_put {spans : List (Span α)} (h : ∀ span ∈ spans, span.Fits items.length)
    (before : List α) :
    (spans.foldl (Span.put items) before).length
      = (spans.flatMap (·.replacement)).length + before.length := by
  induction spans generalizing before with
  | nil => simp
  | cons a rest ih =>
    obtain ⟨ha, hrest⟩ := List.forall_mem_cons.mp h
    rw [List.foldl_cons, ih hrest, a.length_put ha, List.flatMap_cons, List.length_append]
    omega

end Put

/-- The spans that start at a position and pass the check are empty, but for the last. -/
theorem group_cases {spans : List (Span α)} {i : Nat} (hstart : ∀ span ∈ spans, span.start = i)
    (hproper : ∀ span ∈ spans, span.start ≤ span.stop) (hadmits : spans.Pairwise Span.Admits) :
    (∀ span ∈ spans, span.stop = span.start) ∨
      ∃ inserts last, spans = inserts ++ [last] ∧ last.start < last.stop ∧
        ∀ span ∈ inserts, span.stop = span.start := by
  rcases List.eq_nil_or_concat spans with rfl | ⟨inserts, last, rfl⟩
  · exact .inl (by simp)
  · rw [List.concat_eq_append] at *
    have hempty : ∀ span ∈ inserts, span.stop = span.start := by
      intro span hspan
      have hmem := List.mem_append_left [last] hspan
      have hbefore := (List.pairwise_append.mp hadmits).2.2 span hspan last (by simp)
      have hlast := hstart last (by simp)
      unfold Span.Admits at hbefore
      have hspanStart := hstart span hmem
      have := hproper span hmem
      rw [if_pos (by omega)] at hbefore
      omega
    rcases Nat.eq_or_lt_of_le (hproper last (by simp)) with heq | hlt
    · refine .inl fun span hspan => ?_
      rcases List.mem_append.mp hspan with hspan | hspan
      · exact hempty span hspan
      · rw [List.mem_singleton.mp hspan]
        exact heq.symm
    · exact .inr ⟨inserts, last, rfl, hlt, hempty⟩

/-! ## One after the other, or at once -/

/-- The empty spans at the start of a span. -/
def insertsAt (spans : List (Span α)) (span : Span α) : List (Span α) :=
  spans.filter fun other => other.start = span.start ∧ other.stop = span.start

theorem insertsAt_eq {spans inserts : List (Span α)} {last : Span α}
    (hgroup : spans.filter (·.start = last.start) = inserts ++ [last])
    (hlt : last.start < last.stop) (hempty : ∀ span ∈ inserts, span.stop = span.start) :
    insertsAt spans last = inserts := by
  have hsplit : insertsAt spans last
      = (spans.filter (·.start = last.start)).filter fun other => other.stop = last.start := by
    rw [insertsAt, List.filter_filter]
    exact List.filter_congr fun a _ => by simp [Bool.and_comm]
  rw [hsplit, hgroup, List.filter_append, List.filter_eq_self.mpr, List.filter_eq_nil_iff.mpr,
    List.append_nil]
  · simpa using hlt.ne'
  · intro a ha
    have hmem : a ∈ spans.filter (·.start = last.start) := hgroup ▸ List.mem_append_left _ ha
    have hstart : a.start = last.start := by simpa using (List.mem_filter.mp hmem).2
    simpa using (hempty a ha).trans hstart

/-- A span that is replaced after the empty spans at its start takes nothing of what they put
there. -/
def Span.Spares (items : List α) (spans : List (Span α)) (span : Span α) : Prop :=
  ∃ order : List (Span α), order.Perm (insertsAt spans span) ∧
    span.put items ((insertsAt spans span).reverse.flatMap (·.replacement))
      = order.flatMap (·.replacement) ++ span.replacement

/-- Where no empty span puts anything there is nothing to take. -/
theorem Span.Spares.of_empty {items : List α} {spans : List (Span α)} {span : Span α}
    (h : ∀ other ∈ insertsAt spans span, other.replacement = []) : span.Spares items spans := by
  have hnone : (insertsAt spans span).flatMap (·.replacement) = [] := List.flatMap_eq_nil_iff.mpr h
  have hreverse : (insertsAt spans span).reverse.flatMap (·.replacement) = [] :=
    List.flatMap_eq_nil_iff.mpr fun other hother => h other (List.mem_reverse.mp hother)
  have hcovered : (span.covered items).length ≤ span.stop - span.start := by
    simp [Span.covered]
  refine ⟨insertsAt spans span, List.Perm.refl _, ?_⟩
  rw [hnone, hreverse, Span.put, List.nil_append, List.nil_append,
    List.drop_eq_nil_of_le hcovered, List.append_nil]

theorem splice_descending_eq_weave {items : List α} {spans : List (Span α)}
    (hfits : ∀ span ∈ spans, span.Fits items.length) (hadmits : spans.Pairwise Span.Admits) :
    splice items (descending spans) = weave (Outside spans)
      (fun i => (spans.filter (·.start = i)).foldl (Span.put items) []) (fun a => [a]) 0 items := by
  have hsort := perm_descending spans
  have hdisjoint : spans.Pairwise Span.Disjoint := hadmits.imp Span.Admits.disjoint
  have hpair : (descending spans).Pairwise fun a b => b.start ≤ a.start ∧ a.Disjoint b :=
    (pairwise_descending spans).and ((hsort.pairwise_iff fun h => h.symm).mpr hdisjoint)
  have hwoven := splice_woven (fun span hspan => hfits span (hsort.mem_iff.mp hspan)) hpair
  rw [(hwoven.congr fun span => hsort.mem_iff).2]
  refine weave_congr (fun _ _ => Iff.rfl) fun i _ => ?_
  rw [foldl_refill, filter_descending]

/-- The fill at one position, replaced one after the other, is a fill at once. -/
theorem exists_order_iff {items : List α} {spans : List (Span α)} {i : Nat}
    (hfits : ∀ span ∈ spans, span.Fits items.length) (hadmits : spans.Pairwise Span.Admits) :
    (∃ order : List (Span α), order.Perm (spans.filter (·.start = i)) ∧
      order.Pairwise (fun a b => a.stop ≤ b.start) ∧
      (spans.filter (·.start = i)).foldl (Span.put items) [] = order.flatMap (·.replacement)) ↔
    ∀ span ∈ spans, span.start = i → span.start < span.stop → span.Spares items spans := by
  have hstart : ∀ span ∈ spans.filter (·.start = i), span.start = i := fun span hspan => by
    simpa using (List.mem_filter.mp hspan).2
  rcases group_cases hstart
    (fun span hspan => (hfits span (List.mem_of_mem_filter hspan)).1)
    (hadmits.sublist List.filter_sublist) with hempty | ⟨inserts, last, hgroup, hlt, hempty⟩
  · -- all that starts here is empty
    refine iff_of_true ⟨_, List.reverse_perm _, ?_, ?_⟩ fun span hspan hi hlt => ?_
    · refine List.pairwise_of_forall_mem_list fun a ha b hb => ?_
      rw [List.mem_reverse] at ha hb
      rw [hempty a ha, hstart a ha, hstart b hb]
    · rw [foldl_put_of_empty hempty, List.append_nil]
    · have := hempty span (List.mem_filter.mpr ⟨hspan, by simpa using hi⟩)
      omega
  · have hlastMem : last ∈ spans.filter (·.start = i) := by simp [hgroup]
    have hlast : last.start = i := hstart last hlastMem
    have hinserts : insertsAt spans last = inserts :=
      insertsAt_eq (hlast ▸ hgroup) hlt hempty
    have hput : (spans.filter (·.start = i)).foldl (Span.put items) []
        = last.put items (inserts.reverse.flatMap (·.replacement)) := by
      rw [hgroup, List.foldl_append, foldl_put_of_empty hempty, List.append_nil]
      rfl
    rw [hput, hgroup]
    constructor
    · rintro ⟨order, hperm, hpair, heq⟩ span hspan hi hlt'
      obtain rfl : span = last := by
        have hmem : span ∈ inserts ++ [last] :=
          hgroup ▸ List.mem_filter.mpr ⟨hspan, by simpa using hi⟩
        rcases List.mem_append.mp hmem with hmem | hmem
        · have := hempty span hmem
          omega
        · exact List.mem_singleton.mp hmem
      obtain ⟨before, after, rfl⟩ := List.append_of_mem (hperm.mem_iff.mpr (by simp : span ∈ _))
      -- nothing that starts here can come after a span that is not empty
      have hafter : after = [] := by
        refine List.eq_nil_iff_forall_not_mem.mpr fun other hother => ?_
        have hle := (List.pairwise_cons.mp (List.pairwise_append.mp hpair).2.1).1 other hother
        have hmem : other ∈ spans.filter (·.start = i) := by
          rw [hgroup]
          exact hperm.mem_iff.mp (by simp [hother])
        have := hstart other hmem
        omega
      subst hafter
      refine ⟨before, ?_, ?_⟩
      · rw [hinserts]
        exact (List.perm_append_right_iff [span]).mp hperm
      · rw [hinserts, heq]
        simp
    · intro h
      obtain ⟨order, hperm, heq⟩ := h last (List.mem_of_mem_filter hlastMem) hlast hlt
      rw [hinserts] at hperm heq
      refine ⟨order ++ [last], hperm.append_right [last], ?_, by simp [heq]⟩
      have hproper : ∀ a ∈ order, a.start = i ∧ a.stop = i := fun a ha => by
        have hmem := hperm.mem_iff.mp ha
        have := hstart a (by rw [hgroup]; exact List.mem_append_left _ hmem)
        exact ⟨this, (hempty a hmem).trans this⟩
      refine List.pairwise_append.mpr ⟨?_, List.pairwise_singleton .., ?_⟩
      · refine List.pairwise_of_forall_mem_list fun a ha b hb => ?_
        rw [(hproper a ha).2, (hproper b hb).1]
      · intro a ha b hb
        rw [List.mem_singleton.mp hb, (hproper a ha).2, hlast]

/-- **One after the other is at once** just where no span takes what an empty span has put at its
start. -/
theorem simultaneous_iff {items : List α} {spans : List (Span α)}
    (hfits : ∀ span ∈ spans, span.Fits items.length) (hadmits : spans.Pairwise Span.Admits) :
    Simultaneous items spans (splice items (descending spans)) ↔
      ∀ span ∈ spans, span.start < span.stop → span.Spares items spans := by
  rw [splice_descending_eq_weave hfits hadmits]
  constructor
  · rintro ⟨fill, hfill, heq⟩ span hspan hlt
    have hlength : ∀ j, ((spans.filter (·.start = j)).foldl (Span.put items) []).length
        = (fill j).length := fun j => by
      obtain ⟨order, hperm, -, hj⟩ := hfill j
      rw [length_foldl_put fun a ha => hfits a (List.mem_of_mem_filter ha), hj,
        (hperm.flatMap_right _).length_eq]
      rfl
    have hstart : span.start ≤ items.length := by
      have := hfits span hspan
      exact this.1.trans this.2
    have hsame := (weave_fill_inj hlength).mp heq span.start hstart
    rw [Nat.zero_add] at hsame
    obtain ⟨order, hperm, hpair, horder⟩ := hfill span.start
    exact (exists_order_iff hfits hadmits).mp ⟨order, hperm, hpair, hsame.trans horder⟩ span hspan
      rfl hlt
  · intro h
    refine ⟨_, fun i => ?_, rfl⟩
    exact (exists_order_iff hfits hadmits).mpr fun span hspan _ hlt => h span hspan hlt

/-! ## Spans with characters -/

section Proper

variable {items : List α} {spans : List (Span α)} (hlt : ∀ span ∈ spans, span.start < span.stop)
include hlt

theorem pairwise_admits_iff : spans.Pairwise Span.Admits ↔ spans.Pairwise Span.Disjoint := by
  refine ⟨fun h => h.imp Span.Admits.disjoint, fun h => h.imp_of_mem fun {a b} ha hb hab => ?_⟩
  have ha := hlt a ha
  have hb := hlt b hb
  unfold Span.Disjoint at hab
  unfold Span.Admits
  split <;> omega

/-- Spans that all have characters are replaced as if at once. -/
theorem simultaneous_splice (hfits : ∀ span ∈ spans, span.Fits items.length)
    (hdisjoint : spans.Pairwise Span.Disjoint) :
    Simultaneous items spans (splice items (descending spans)) := by
  refine (simultaneous_iff hfits ((pairwise_admits_iff hlt).mpr hdisjoint)).mpr fun span _ _ => ?_
  refine .of_empty fun other hother => ?_
  obtain ⟨hmem, hempty⟩ := List.mem_filter.mp hother
  have := hlt other hmem
  simp at hempty
  omega

theorem Simultaneous.unique (hdisjoint : spans.Pairwise Span.Disjoint) {result result' : List α}
    (h : Simultaneous items spans result) (h' : Simultaneous items spans result') :
    result = result' := by
  obtain ⟨fill, hfill, rfl⟩ := h
  obtain ⟨fill', hfill', rfl⟩ := h'
  refine weave_congr (fun _ _ => Iff.rfl) fun i _ => ?_
  obtain ⟨order, hperm, -, heq⟩ := hfill i
  obtain ⟨order', hperm', -, heq'⟩ := hfill' i
  -- at most one span starts at a position
  have hgroup := hdisjoint.sublist (List.filter_sublist (p := (·.start = i)))
  have hstart : ∀ span ∈ spans.filter (·.start = i), span.start < span.stop ∧ span.start = i :=
    fun span hspan => by
      obtain ⟨hmem, hi⟩ := List.mem_filter.mp hspan
      exact ⟨hlt span hmem, by simpa using hi⟩
  have hone : order = order' := by
    cases hspans : spans.filter (·.start = i) with
    | nil =>
      rw [hspans] at hperm hperm'
      rw [hperm.eq_nil, hperm'.eq_nil]
    | cons a rest =>
      cases rest with
      | nil =>
        rw [hspans] at hperm hperm'
        rw [List.perm_singleton.mp hperm, List.perm_singleton.mp hperm']
      | cons b rest =>
        rw [hspans] at hgroup hstart
        have ha := hstart a (by simp)
        have hb := hstart b (by simp)
        have hab := (List.pairwise_cons.mp hgroup).1 b (by simp)
        unfold Span.Disjoint at hab
        omega
  rw [heq, heq', hone]

end Proper

end Tile
