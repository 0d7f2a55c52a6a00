import Mathlib.Data.List.Basic
import Mathlib.Logic.Function.Basic

/-!
# Library/Splice — replacing spans of a list

Spans are replaced one after the other, from the last start to the first.  What comes out is a
**weave** of the list with fills (`splice_eq_weave`): the elements outside every span, in order, and
at the start of each span whatever took its place.  `weave_inj` says when two weaves with the same
fills agree.
-/

namespace Tile

variable {α : Type u} {β : Type v}

/-- A part of a text, and what takes its place. -/
structure Span (α : Type u) where
  start : Nat
  stop : Nat
  replacement : List α
  deriving DecidableEq

/-- The position lies in none of the spans. -/
def Outside (spans : List (Span α)) (i : Nat) : Prop :=
  ∀ span ∈ spans, i < span.start ∨ span.stop ≤ i

instance (spans : List (Span α)) (i : Nat) : Decidable (Outside spans i) := by
  unfold Outside
  infer_instance

/-- Neither span reaches into the other. -/
def Span.Disjoint (a b : Span α) : Prop := a.stop ≤ b.start ∨ b.stop ≤ a.start

/-- The span lies in a text of this length. -/
def Span.Fits (span : Span α) (length : Nat) : Prop :=
  span.start ≤ span.stop ∧ span.stop ≤ length

/-- The text with the span replaced. -/
def Span.apply (items : List α) (span : Span α) : List α :=
  items.take span.start ++ span.replacement ++ items.drop span.stop

/-- Replace the spans in the order they are listed. -/
def splice (items : List α) (spans : List (Span α)) : List α := spans.foldl Span.apply items

/-- The elements the span replaces. -/
def Span.covered (items : List α) (span : Span α) : List α :=
  (items.drop span.start).take (span.stop - span.start)

/-- What stands at the start of the span once it is replaced: as many elements go as it covers, of
those that were put in front of them first. -/
def Span.put (items : List α) (before : List α) (span : Span α) : List α :=
  span.replacement ++ (before ++ span.covered items).drop (span.stop - span.start)

/-- The fills once one more span is replaced. -/
def Span.refill (items : List α) (fill : Nat → List α) (span : Span α) : Nat → List α :=
  Function.update fill span.start (span.put items (fill span.start))

/-- The pieces of the kept elements, in order, each position's fill before its element. -/
def weave (keep : Nat → Prop) [DecidablePred keep] (fill : Nat → List β) (piece : α → List β) :
    (i : Nat) → List α → List β
  | i, [] => fill i
  | i, a :: rest =>
    fill i ++ (if keep i then piece a else []) ++ weave keep fill piece (i + 1) rest

section Weave

variable {keep keep' : Nat → Prop} [DecidablePred keep] [DecidablePred keep']
  {fill fill' : Nat → List β} {piece : α → List β} {items items' : List α} {i : Nat}

theorem weave_congr (hkeep : ∀ j, i ≤ j → (keep j ↔ keep' j))
    (hfill : ∀ j, i ≤ j → fill j = fill' j) :
    weave keep fill piece i items = weave keep' fill' piece i items := by
  induction items generalizing i with
  | nil => exact hfill i (Nat.le_refl i)
  | cons a rest ih =>
    rw [weave, weave, hfill i (Nat.le_refl i),
      ih (fun j hj => hkeep j (by omega)) fun j hj => hfill j (by omega)]
    simp only [hkeep i (Nat.le_refl i)]

/-- A kept stretch without fills is passed through. -/
theorem weave_append (hkeep : ∀ j, i ≤ j → j < i + items.length → keep j)
    (hfill : ∀ j, i ≤ j → j < i + items.length → fill j = []) :
    weave keep fill piece i (items ++ items')
      = items.flatMap piece ++ weave keep fill piece (i + items.length) items' := by
  induction items generalizing i with
  | nil => simp
  | cons a rest ih =>
    have hlt : i < i + (a :: rest).length := by simp
    have hlength : i + (a :: rest).length = i + 1 + rest.length := by simp; omega
    rw [hlength] at hkeep hfill hlt ⊢
    rw [List.cons_append, weave, hfill i (Nat.le_refl i) hlt, if_pos (hkeep i (Nat.le_refl i) hlt),
      ih (fun j hj => hkeep j (by omega)) fun j hj => hfill j (by omega), List.flatMap_cons]
    simp

/-- A dropped stretch without fills leaves nothing. -/
theorem weave_drop (hkeep : ∀ j, i ≤ j → j < i + items.length → ¬ keep j)
    (hfill : ∀ j, i ≤ j → j < i + items.length → fill j = []) :
    weave keep fill piece i (items ++ items')
      = weave keep fill piece (i + items.length) items' := by
  induction items generalizing i with
  | nil => simp
  | cons a rest ih =>
    have hlt : i < i + (a :: rest).length := by simp
    have hlength : i + (a :: rest).length = i + 1 + rest.length := by simp; omega
    rw [hlength] at hkeep hfill hlt ⊢
    rw [List.cons_append, weave, hfill i (Nat.le_refl i) hlt, if_neg (hkeep i (Nat.le_refl i) hlt),
      ih (fun j hj => hkeep j (by omega)) fun j hj => hfill j (by omega)]
    simp

theorem weave_update (x : List β) :
    weave keep (Function.update fill i (x ++ fill i)) piece i items
      = x ++ weave keep fill piece i items := by
  cases items with
  | nil => simp [weave]
  | cons a rest =>
    have hrest : weave keep (Function.update fill i (x ++ fill i)) piece (i + 1) rest
        = weave keep fill piece (i + 1) rest :=
      weave_congr (fun _ _ => Iff.rfl) fun j hj => Function.update_of_ne (by omega) _ _
    rw [weave, weave, hrest, Function.update_self]
    simp only [List.append_assoc]

theorem weave_flatMap {γ : Type w} (f : β → List γ) :
    (weave keep fill piece i items).flatMap f
      = weave keep (fun j => (fill j).flatMap f) (fun a => (piece a).flatMap f) i items := by
  induction items generalizing i with
  | nil => rfl
  | cons a rest ih =>
    rw [weave, weave, List.flatMap_append, List.flatMap_append, ih]
    split <;> rfl

theorem weave_map {γ : Type w} (g : γ → α) (items : List γ) :
    weave keep fill piece i (items.map g) = weave keep fill (fun c => piece (g c)) i items := by
  induction items generalizing i with
  | nil => rfl
  | cons c rest ih => rw [List.map_cons, weave, weave, ih]

/-- **Two weaves with the same fills** and no shorter pieces on one side agree only where every
kept element has the same piece. -/
theorem weave_inj {piece' : α → List β} (hle : ∀ a ∈ items, (piece a).length ≤ (piece' a).length) :
    weave keep fill piece i items = weave keep fill piece' i items ↔
      ∀ k a, items[k]? = some a → keep (i + k) → piece a = piece' a := by
  have hshort : ∀ {items : List α} {i : Nat},
      (∀ a ∈ items, (piece a).length ≤ (piece' a).length) →
      (weave keep fill piece i items).length ≤ (weave keep fill piece' i items).length := by
    intro items
    induction items with
    | nil => exact fun _ => Nat.le_refl _
    | cons a rest ih =>
      intro i h
      have hrest := ih (i := i + 1) fun a ha => h a (List.mem_cons_of_mem _ ha)
      have ha := h a (List.mem_cons_self ..)
      simp only [weave, List.length_append]
      split <;> simp <;> omega
  induction items generalizing i with
  | nil => simp [weave]
  | cons a rest ih =>
    have ha := hle a (List.mem_cons_self ..)
    have hrest : ∀ a ∈ rest, (piece a).length ≤ (piece' a).length :=
      fun a ha => hle a (List.mem_cons_of_mem _ ha)
    have hsplit : (∀ k b, (a :: rest)[k]? = some b → keep (i + k) → piece b = piece' b) ↔
        (keep i → piece a = piece' a) ∧
          ∀ k b, rest[k]? = some b → keep (i + 1 + k) → piece b = piece' b := by
      constructor
      · intro h
        exact ⟨h 0 a rfl, fun k b hb hk =>
          h (k + 1) b hb (by rwa [← Nat.add_assoc, Nat.add_right_comm])⟩
      · rintro ⟨hhead, htail⟩ k b hb hk
        cases k with
        | zero =>
          obtain rfl : a = b := by simpa using hb
          exact hhead hk
        | succ k => exact htail k b hb (by rwa [Nat.add_right_comm, Nat.add_assoc])
    have hih := ih (i := i + 1) hrest
    have htail := hshort (i := i + 1) hrest
    refine Iff.trans ?_ hsplit.symm
    rw [weave, weave, List.append_assoc, List.append_assoc, List.append_cancel_left_eq]
    by_cases hkeep : keep i
    · rw [if_pos hkeep, if_pos hkeep]
      constructor
      · intro h
        have hlength := congrArg List.length h
        simp only [List.length_append] at hlength
        obtain ⟨h₁, h₂⟩ := List.append_inj h (by omega)
        exact ⟨fun _ => h₁, hih.mp h₂⟩
      · rintro ⟨h₁, h₂⟩
        rw [h₁ hkeep, hih.mpr h₂]
    · rw [if_neg hkeep, if_neg hkeep, List.nil_append, List.nil_append]
      exact ⟨fun h => ⟨fun hk => absurd hk hkeep, hih.mp h⟩, fun h => hih.mpr h.2⟩

end Weave

/-! ## What splicing leaves -/

/-- The list is a weave of `items`: all that lies outside the spans, and fills at their starts. -/
def Woven (items : List α) (spans : List (Span α)) (fill : Nat → List α) (result : List α) : Prop :=
  (∀ i, fill i ≠ [] → ∃ span ∈ spans, span.start = i) ∧
    result = weave (Outside spans) fill (fun a => [a]) 0 items

theorem outside_congr {spans spans' : List (Span α)} (h : ∀ span, span ∈ spans ↔ span ∈ spans')
    (i : Nat) : Outside spans i ↔ Outside spans' i :=
  forall_congr' fun span => imp_congr_left (h span)

theorem Woven.congr {items result : List α} {spans spans' : List (Span α)} {fill : Nat → List α}
    (h : Woven items spans fill result) (hmem : ∀ span, span ∈ spans ↔ span ∈ spans') :
    Woven items spans' fill result := by
  refine ⟨fun i hi => ?_, h.2.trans (weave_congr (fun j _ => outside_congr hmem j) fun _ _ => rfl)⟩
  obtain ⟨span, hspan, hstart⟩ := h.1 i hi
  exact ⟨span, (hmem span).mp hspan, hstart⟩

/-- A weave with nothing before `start` is the list up to there and the weave from there. -/
theorem weave_from {items : List α} {spans : List (Span α)} {fill : Nat → List α} {start : Nat}
    (hle : start ≤ items.length) (hstarts : ∀ i, fill i ≠ [] → ∃ span ∈ spans, span.start = i)
    (hfirst : ∀ span ∈ spans, start ≤ span.start) :
    weave (Outside spans) fill (fun a => [a]) 0 items
      = items.take start ++ weave (Outside spans) fill (fun a => [a]) start (items.drop start) := by
  have hlength : (items.take start).length = start := List.length_take_of_le hle
  have hkeep : ∀ j, 0 ≤ j → j < 0 + (items.take start).length → Outside spans j :=
    fun j _ hj span hspan => .inl (by have := hfirst span hspan; omega)
  have hempty : ∀ j, 0 ≤ j → j < 0 + (items.take start).length → fill j = [] := by
    intro j _ hj
    by_contra hne
    obtain ⟨span, hspan, rfl⟩ := hstarts j hne
    have := hfirst span hspan
    omega
  conv => lhs; rw [← List.take_append_drop start items]
  rw [weave_append hkeep hempty, hlength, Nat.zero_add]
  simp

theorem Span.apply_append {span : Span α} {before rest : List α}
    (hbefore : before.length = span.start) (hle : span.start ≤ span.stop) :
    span.apply (before ++ rest)
      = before ++ (span.replacement ++ rest.drop (span.stop - span.start)) := by
  rw [Span.apply, List.take_append_of_le_length (Nat.le_of_eq hbefore.symm),
    List.take_of_length_le (Nat.le_of_eq hbefore), List.drop_append,
    List.drop_eq_nil_of_le (by omega), hbefore, List.nil_append, List.append_assoc]

theorem outside_cons {span : Span α} {spans : List (Span α)} {i : Nat} :
    Outside (span :: spans) i ↔ (i < span.start ∨ span.stop ≤ i) ∧ Outside spans i :=
  List.forall_mem_cons

/-- A span in front of the others, with the fill at its start changed. -/
theorem Woven.cons {items rest : List α} {spans : List (Span α)} {fill fill' : Nat → List α}
    {span : Span α} (hstarts : ∀ i, fill i ≠ [] → ∃ other ∈ spans, other.start = i)
    (hle : span.start ≤ items.length) (hfirst : ∀ other ∈ spans, span.start ≤ other.start)
    (hfill : ∀ i, i ≠ span.start → fill' i = fill i)
    (hrest : rest = weave (Outside (span :: spans)) fill' (fun a => [a]) span.start
      (items.drop span.start)) :
    Woven items (span :: spans) fill' (items.take span.start ++ rest) := by
  have hstarts' : ∀ i, fill' i ≠ [] → ∃ other ∈ span :: spans, other.start = i := by
    intro i hi
    by_cases hi' : i = span.start
    · exact ⟨span, List.mem_cons_self .., hi'.symm⟩
    · obtain ⟨other, hother, hi⟩ := hstarts i (hfill i hi' ▸ hi)
      exact ⟨other, List.mem_cons_of_mem _ hother, hi⟩
  refine ⟨hstarts', ?_⟩
  rw [hrest, weave_from hle hstarts' (List.forall_mem_cons.mpr ⟨Nat.le_refl _, hfirst⟩)]

/-- **A span with characters** drops them, and whatever the fill at its start does not cover. -/
theorem weave_span {items : List α} {spans : List (Span α)} {fill : Nat → List α} {span : Span α}
    (hstarts : ∀ i, fill i ≠ [] → ∃ other ∈ spans, other.start = i)
    (hproper : ∀ other ∈ spans, other.start ≤ other.stop)
    (hdisjoint : ∀ other ∈ spans, other.Disjoint span) (hlt : span.start < span.stop)
    (hlength : span.stop ≤ items.length) :
    span.replacement ++ (weave (Outside spans) fill (fun a => [a]) span.start
        (items.drop span.start)).drop (span.stop - span.start)
      = weave (Outside (span :: spans)) (span.refill items fill) (fun a => [a]) span.start
        (items.drop span.start) := by
  obtain ⟨b, within, hb⟩ : ∃ b within, span.covered items = b :: within :=
    List.exists_cons_of_length_pos (by simp [Span.covered]; omega)
  have hwithin : within.length + 1 = span.stop - span.start := by
    have := congrArg List.length hb
    simp [Span.covered] at this
    omega
  have hsplit : items.drop span.start = b :: (within ++ items.drop span.stop) := by
    rw [← List.take_append_drop (span.stop - span.start) (items.drop span.start),
      ← Span.covered, hb, List.drop_drop, Nat.add_sub_cancel' (Nat.le_of_lt hlt),
      List.cons_append]
  have hout : ∀ j, span.start ≤ j → j < span.stop → Outside spans j := fun j hj hj' s hs => by
    rcases hdisjoint s hs with hbefore | hafter
    · exact .inr (Nat.le_trans hbefore hj)
    · exact .inl (Nat.lt_of_lt_of_le hj' hafter)
  have hempty : ∀ j, span.start < j → j < span.stop → fill j = [] := fun j hj hj' => by
    by_contra hne
    obtain ⟨s, hs, rfl⟩ := hstarts j hne
    have := hproper s hs
    rcases hdisjoint s hs with hbefore | hafter <;> omega
  have hcovered : ∀ j, span.start ≤ j → j < span.stop → ¬ Outside (span :: spans) j :=
    fun j hj hj' h => by
      rcases (outside_cons.mp h).1 with hlt | hle <;> omega
  set tail := weave (Outside spans) fill (fun a => [a]) span.stop (items.drop span.stop)
    with htail
  set kept := fill span.start ++ b :: within with hkept
  have hstop : span.start + 1 + within.length = span.stop := by omega
  have hrest : weave (Outside spans) fill (fun a => [a]) span.start (items.drop span.start)
      = kept ++ tail := by
    rw [hsplit, weave, if_pos (hout _ (Nat.le_refl _) hlt),
      weave_append (fun j hj hj' => hout j (by omega) (by omega))
        (fun j hj hj' => hempty j (by omega) (by omega)), hstop]
    simp [hkept, htail]
  have hdrop : (kept ++ tail).drop (span.stop - span.start)
      = kept.drop (span.stop - span.start) ++ tail := by
    rw [List.drop_append_of_le_length]
    simp [hkept]
    omega
  rw [hrest, hdrop, hsplit, weave, if_neg (hcovered _ (Nat.le_refl _) hlt), Span.refill, Span.put,
    hb, ← hkept, Function.update_self,
    weave_drop (fun j hj hj' => hcovered j (by omega) (by omega))
      (fun j hj hj' => by
        rw [Function.update_of_ne (by omega)]
        exact hempty j (by omega) (by omega)), hstop, List.append_nil, List.append_assoc]
  refine congrArg _ (congrArg _ (weave_congr (fun j hj => ?_) fun j hj => ?_))
  · exact ⟨fun h => outside_cons.mpr ⟨.inr hj, h⟩, fun h => (outside_cons.mp h).2⟩
  · exact (Function.update_of_ne (by omega) _ _).symm

/-- **One replacement**, at or before the starts of those already made. -/
theorem Woven.apply {items result : List α} {spans : List (Span α)} {fill : Nat → List α}
    (h : Woven items spans fill result) (hfits : ∀ other ∈ spans, other.Fits items.length)
    {span : Span α} (hspan : span.Fits items.length)
    (hfirst : ∀ other ∈ spans, span.start ≤ other.start ∧ other.Disjoint span) :
    Woven items (span :: spans) (span.refill items fill) (span.apply result) := by
  obtain ⟨hle, hlength⟩ := hspan
  have hstart := Nat.le_trans hle hlength
  obtain ⟨hstarts, rfl⟩ := h
  have hbefore : ∀ other ∈ spans, span.start ≤ other.start := fun other hother =>
    (hfirst other hother).1
  rw [weave_from hstart hstarts hbefore,
    span.apply_append (List.length_take_of_le hstart) hle]
  refine .cons hstarts hstart hbefore (fun i hi => Function.update_of_ne hi _ fill) ?_
  rcases Nat.eq_or_lt_of_le hle with hzero | hlt
  · -- a span without characters: its replacement goes before what is there
    have hrefill : span.refill items fill
        = Function.update fill span.start (span.replacement ++ fill span.start) := by
      simp [Span.refill, Span.put, Span.covered, ← hzero]
    rw [hrefill, weave_update, ← hzero, Nat.sub_self, List.drop_zero]
    refine congrArg _ (weave_congr (fun j hj => ?_) fun _ _ => rfl)
    exact ⟨fun h => outside_cons.mpr ⟨.inr (hzero ▸ hj), h⟩, fun h => (outside_cons.mp h).2⟩
  · exact weave_span hstarts (fun other hother => (hfits other hother).1)
      (fun other hother => (hfirst other hother).2) hlt hlength

theorem woven_nil (items : List α) : Woven items [] (fun _ => []) items := by
  refine ⟨fun i hi => absurd rfl hi, ?_⟩
  rw [← List.append_nil items,
    weave_append (fun _ _ _ _ h => absurd h (by simp)) fun _ _ _ => rfl]
  simp [weave]

theorem Woven.splice {items : List α} {spans made : List (Span α)} {fill : Nat → List α}
    {result : List α} (h : Woven items made fill result)
    (hfits : ∀ span ∈ spans, span.Fits items.length)
    (hmade : ∀ span ∈ made, span.Fits items.length)
    (hspans : spans.Pairwise fun a b => b.start ≤ a.start ∧ a.Disjoint b)
    (hcross : ∀ a ∈ made, ∀ b ∈ spans, b.start ≤ a.start ∧ a.Disjoint b) :
    Woven items (spans ++ made) (spans.foldl (Span.refill items) fill) (splice result spans) := by
  induction spans generalizing made fill result with
  | nil => exact h
  | cons span rest ih =>
    obtain ⟨hspan, hrest⟩ := List.forall_mem_cons.mp hfits
    obtain ⟨hhead, hpair⟩ := List.pairwise_cons.mp hspans
    have happly := h.apply hmade hspan fun other hother =>
      hcross other hother span (List.mem_cons_self ..)
    have hnext := ih happly hrest (List.forall_mem_cons.mpr ⟨hspan, hmade⟩) hpair
      fun a ha b hb => by
        rcases List.mem_cons.mp ha with rfl | ha
        · exact hhead b hb
        · exact hcross a ha b (List.mem_cons_of_mem _ hb)
    exact hnext.congr fun s => by simp [or_left_comm]

/-- **Splicing weaves.**  Spans that fit and do not reach into each other, replaced from the last
start to the first, leave all that lies outside them where it was. -/
theorem splice_woven {items : List α} {spans : List (Span α)}
    (hfits : ∀ span ∈ spans, span.Fits items.length)
    (hspans : spans.Pairwise fun a b => b.start ≤ a.start ∧ a.Disjoint b) :
    Woven items spans (spans.foldl (Span.refill items) fun _ => []) (splice items spans) := by
  have hwoven := (woven_nil items).splice hfits (by simp) hspans (by simp)
  rwa [List.append_nil] at hwoven

end Tile
