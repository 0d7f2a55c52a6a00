import Mathlib.Algebra.GroupWithZero.Nat
import Tile.Library.Simultaneous

/-!
# Library/Probe — finding out where a replacement lands

Two families of places that turn a list into the same results, whatever is put there, must put it in
the same places.  To see it, one replacement gets a first element of its own: in two results that
agree for either of two elements, it stands at the same position (`map_getD_inj`), and what is in
front of it has as many elements of a kind as what was there before (`exists_marked_eq`).
-/

namespace Tile

variable {α : Type u} {β : Type v}

/-! ## Replacing commutes with renaming -/

def Span.map (g : α → β) (span : Span α) : Span β where
  start := span.start
  stop := span.stop
  replacement := span.replacement.map g

theorem splice_map (g : α → β) (items : List α) (spans : List (Span α)) :
    splice (items.map g) (spans.map (Span.map g)) = (splice items spans).map g := by
  induction spans generalizing items with
  | nil => rfl
  | cons span rest ih =>
    have happly : (span.map g).apply (items.map g) = (span.apply items).map g := by
      simp [Span.apply, Span.map]
    rw [splice, List.map_cons, List.foldl_cons, happly]
    exact ih _

/-! ## Spans side by side, from the last to the first -/

/-- Each span stops where the one listed before it starts, or earlier. -/
def SideBySide (spans : List (Span α)) : Prop := spans.Pairwise fun a b => b.stop ≤ a.start

theorem Span.covered_eq (items : List α) (span : Span α) :
    span.covered items = (items.take span.stop).drop span.start :=
  List.drop_take.symm

theorem Span.covered_apply {items : List α} {a b : Span α} (hle : b.stop ≤ a.start)
    (ha : a.start ≤ items.length) : b.covered (a.apply items) = b.covered items := by
  have hlength : b.stop ≤ (items.take a.start).length := by rwa [List.length_take_of_le ha]
  rw [covered_eq, covered_eq, apply, List.append_assoc, List.take_append_of_le_length hlength,
    List.take_take, Nat.min_eq_left hle]

theorem Span.fits_apply {items : List α} {a b : Span α} (hle : b.stop ≤ a.start)
    (ha : a.Fits items.length) (hb : b.Fits items.length) : b.Fits (a.apply items).length :=
  ⟨hb.1, a.start_le_length_apply hb.2 hle ha.1⟩

/-- A replacement is found again, between what the earlier spans and what the later ones leave. -/
theorem splice_split {items : List α} {late early : List (Span α)} {span : Span α}
    (hspans : SideBySide (late ++ span :: early))
    (hfits : ∀ other ∈ late ++ span :: early, other.Fits items.length) :
    ∃ rest, splice items (late ++ span :: early)
      = splice (items.take span.start) early ++ (span.replacement ++ rest) := by
  simp only [List.forall_mem_append, List.forall_mem_cons] at hfits
  obtain ⟨hlate, hspan, hearly⟩ := hfits
  obtain ⟨-, hrest, hcross⟩ := List.pairwise_append.mp hspans
  obtain ⟨hfirst, hrest⟩ := List.pairwise_cons.mp hrest
  have hlength : (items.take span.start).length = span.start :=
    List.length_take_of_le (hspan.1.trans hspan.2)
  obtain ⟨after, hafter⟩ := splice_append_of_le (items.drop span.start)
    (fun other hother => (hlate other hother).1) fun other hother =>
      hlength.trans_le (hspan.1.trans (hcross other hother span List.mem_cons_self))
  rw [List.take_append_drop] at hafter
  refine ⟨after.drop (span.stop - span.start), ?_⟩
  calc splice items (late ++ span :: early)
      = splice (splice items late) (span :: early) := List.foldl_append
    _ = splice (span.apply (items.take span.start ++ after)) early := by
        rw [hafter]
        rfl
    _ = splice (items.take span.start
          ++ (span.replacement ++ after.drop (span.stop - span.start))) early := by
        rw [span.apply_append hlength hspan.1]
    _ = _ := splice_append (fun other hother => ⟨(hearly other hother).1,
        hlength.symm ▸ hfirst other hother⟩) hrest

/-- Replacements with as many elements of a kind as what they replace. -/
theorem countP_splice {items : List α} {spans : List (Span α)} (p : α → Bool)
    (hspans : SideBySide spans) (hfits : ∀ span ∈ spans, span.Fits items.length)
    (hcount : ∀ span ∈ spans, span.replacement.countP p = (span.covered items).countP p) :
    (splice items spans).countP p = items.countP p := by
  induction spans generalizing items with
  | nil => rfl
  | cons a rest ih =>
    obtain ⟨ha, hrest⟩ := List.forall_mem_cons.mp hfits
    obtain ⟨hcounta, hcount⟩ := List.forall_mem_cons.mp hcount
    obtain ⟨hfirst, hspans⟩ := List.pairwise_cons.mp hspans
    have happly : (a.apply items).countP p = items.countP p := by
      have hsplit : items = items.take a.start ++ a.covered items ++ items.drop a.stop := by
        have htake : items.take a.start = (items.take a.stop).take a.start := by
          rw [List.take_take, Nat.min_eq_left ha.1]
        rw [htake, a.covered_eq, List.take_append_drop, List.take_append_drop]
      conv => rhs; rw [hsplit]
      rw [Span.apply, List.countP_append, List.countP_append, List.countP_append,
        List.countP_append, hcounta]
    rw [← happly]
    refine ih hspans (fun b hb => Span.fits_apply (hfirst b hb) ha (hrest b hb)) fun b hb => ?_
    rw [hcount b hb, Span.covered_apply (hfirst b hb) (ha.1.trans ha.2)]

theorem length_splice {items : List α} {spans : List (Span α)}
    (hspans : SideBySide spans) (hfits : ∀ span ∈ spans, span.Fits items.length) :
    (splice items spans).length + (spans.map fun span => span.stop - span.start).sum
      = items.length + (spans.map (·.replacement.length)).sum := by
  induction spans generalizing items with
  | nil => simp [splice]
  | cons a rest ih =>
    obtain ⟨ha, hrest⟩ := List.forall_mem_cons.mp hfits
    obtain ⟨hfirst, hspans⟩ := List.pairwise_cons.mp hspans
    have happly : (a.apply items).length + (a.stop - a.start)
        = items.length + a.replacement.length := by
      obtain ⟨hle, hlength⟩ := ha
      simp only [Span.apply, List.length_append, List.length_take, List.length_drop]
      omega
    have hsplice := ih hspans fun b hb => Span.fits_apply (hfirst b hb) ha (hrest b hb)
    rw [splice, List.foldl_cons, ← splice, List.map_cons, List.sum_cons, List.map_cons,
      List.sum_cons]
    omega

/-- The replacement that is put in last stays whole. -/
theorem lt_length_splice {items : List α} {spans : List (Span α)} {n : Nat} (hne : spans ≠ [])
    (h : ∀ span ∈ spans, n < span.replacement.length) : n < (splice items spans).length := by
  obtain ⟨init, last, rfl⟩ := (List.eq_nil_or_concat' spans).resolve_left hne
  have hlast := h last (by simp)
  rw [splice, List.foldl_append, List.foldl_cons, List.foldl_nil, Span.apply, List.length_append,
    List.length_append]
  omega

/-! ## A mark -/

theorem map_getD_inj {a b : α} (hab : a ≠ b) {xs ys : List (Option α)}
    (ha : xs.map (·.getD a) = ys.map (·.getD a)) (hb : xs.map (·.getD b) = ys.map (·.getD b)) :
    xs = ys := by
  induction xs generalizing ys with
  | nil => exact (List.map_eq_nil_iff.mp ha.symm).symm
  | cons x xs ih =>
    cases ys with
    | nil => simp at ha
    | cons y ys =>
      obtain ⟨hxa, ha⟩ := List.cons.inj ha
      obtain ⟨hxb, hb⟩ := List.cons.inj hb
      have hxy : x = y := by
        cases x <;> cases y <;> simp_all
      rw [hxy, ih ha hb]

theorem mem_splice {items : List α} {spans : List (Span α)} {a : α} (h : a ∈ splice items spans) :
    a ∈ items ∨ ∃ span ∈ spans, a ∈ span.replacement := by
  induction spans generalizing items with
  | nil => exact .inl h
  | cons span rest ih =>
    rcases ih h with hmem | ⟨other, hother, hmem⟩
    · rw [Span.apply, List.mem_append, List.mem_append] at hmem
      rcases hmem with (hmem | hmem) | hmem
      · exact .inl (List.mem_of_mem_take hmem)
      · exact .inr ⟨span, List.mem_cons_self, hmem⟩
      · exact .inl (List.mem_of_mem_drop hmem)
    · exact .inr ⟨other, List.mem_cons_of_mem _ hother, hmem⟩

/-- A span takes the first element that an empty span has put at its start. -/
theorem not_mem_splice_of_overlap {items tail : List α} {late early : List (Span α)} {a b : Span α}
    {m : α} (hitems : m ∉ items) (hstop : a.stop = a.start) (hstart : b.start = a.start)
    (hlt : a.start < b.stop) (hle : a.start ≤ items.length)
    (hlate : ∀ span ∈ late, span.start ≤ span.stop ∧ a.start ≤ span.start)
    (ha : a.replacement = m :: tail) (htail : m ∉ tail) (hb : m ∉ b.replacement)
    (hclean : ∀ span, span ∈ late ∨ span ∈ early → m ∉ span.replacement) :
    m ∉ splice items (late ++ a :: b :: early) := by
  have hlength : (items.take a.start).length = a.start := List.length_take_of_le hle
  obtain ⟨after, hafter⟩ := splice_append_of_le (items.drop a.start)
    (fun span hspan => (hlate span hspan).1) fun span hspan => hlength.trans_le (hlate span hspan).2
  rw [List.take_append_drop] at hafter
  have hafterClean : m ∉ after := by
    intro hmem
    rcases mem_splice (hafter ▸ List.mem_append_right _ hmem : m ∈ splice items late) with
      hmem | ⟨span, hspan, hmem⟩
    · exact hitems hmem
    · exact hclean span (.inl hspan) hmem
  obtain ⟨n, hn⟩ := Nat.exists_eq_add_of_lt hlt
  have htwo : splice items (late ++ a :: b :: early)
      = splice (items.take a.start ++ (b.replacement ++ (tail ++ after).drop n)) early := by
    calc splice items (late ++ a :: b :: early)
        = splice (splice items late) (a :: b :: early) := List.foldl_append
      _ = splice (b.apply (a.apply (items.take a.start ++ after))) early := by
          rw [hafter]
          rfl
      _ = _ := by
          rw [a.apply_insert hlength.symm (hstop.trans hlength.symm),
            b.apply_append (hlength.trans hstart.symm) (by omega), ha,
            show b.stop - b.start = n + 1 by omega]
          rfl
  rw [htwo]
  intro hmem
  rcases mem_splice hmem with hmem | ⟨span, hspan, hmem⟩
  · simp only [List.mem_append] at hmem
    rcases hmem with hmem | hmem | hmem
    · exact hitems (List.mem_of_mem_take hmem)
    · exact hb hmem
    · rcases List.mem_append.mp (List.mem_of_mem_drop hmem) with hmem | hmem
      · exact htail hmem
      · exact hafterClean hmem
  · exact hclean span (.inr hspan) hmem

/-! ## A family of places -/

section Family

variable {ι : Type w} (place : ι → Nat × Nat)

/-- The spans at these places, each with its own replacement. -/
def spansAt (replacement : ι → List α) (is : List ι) : List (Span α) :=
  is.map fun i => ⟨(place i).1, (place i).2, replacement i⟩

/-- The places in the order they are replaced in. -/
def lastFirst (is : List ι) : List ι := is.insertionSort fun i k => (place k).1 ≤ (place i).1

theorem descending_spansAt (replacement : ι → List α) (is : List ι) :
    descending (spansAt place replacement is) = spansAt place replacement (lastFirst place is) :=
  (List.map_insertionSort (fun i k => (place k).1 ≤ (place i).1)
    (fun a b : Span α => b.start ≤ a.start) _ is fun _ _ _ _ => Iff.rfl).symm

theorem map_spansAt (g : α → β) (replacement : ι → List α) (is : List ι) :
    spansAt place (fun k => (replacement k).map g) is
      = (spansAt place replacement is).map (Span.map g) := by
  rw [spansAt, spansAt, List.map_map]
  rfl

variable {place} in
theorem sideBySide_spansAt {replacement : ι → List α} {is : List ι} :
    SideBySide (spansAt place replacement is) ↔
      is.Pairwise fun i k => (place k).2 ≤ (place i).1 :=
  List.pairwise_map

variable {place} in
theorem fits_spansAt {replacement : ι → List α} {is : List ι} {length : Nat} :
    (∀ span ∈ spansAt place replacement is, span.Fits length) ↔
      ∀ i ∈ is, (place i).1 ≤ (place i).2 ∧ (place i).2 ≤ length :=
  List.forall_mem_map

variable {place} in
theorem mem_lastFirst {is : List ι} {i : ι} : i ∈ lastFirst place is ↔ i ∈ is :=
  List.mem_insertionSort fun i k => (place k).1 ≤ (place i).1

theorem perm_lastFirst (is : List ι) : (lastFirst place is).Perm is :=
  List.perm_insertionSort (fun i k => (place k).1 ≤ (place i).1) is

theorem sum_lastFirst (is : List ι) (g : ι → Nat) :
    ((lastFirst place is).map g).sum = (is.map g).sum :=
  ((perm_lastFirst place is).map g).sum_nat

variable {place} in
theorem length_splice_spansAt {replacement : ι → List α} {is : List ι} {items : List α}
    (hside : (lastFirst place is).Pairwise fun i k => (place k).2 ≤ (place i).1)
    (hfits : ∀ k ∈ is, (place k).1 ≤ (place k).2 ∧ (place k).2 ≤ items.length) :
    (splice items (spansAt place replacement (lastFirst place is))).length
        + (is.map fun k => (place k).2 - (place k).1).sum
      = items.length + (is.map fun k => (replacement k).length).sum := by
  have hspans := @length_splice α items (spansAt place replacement (lastFirst place is))
    (sideBySide_spansAt.mpr hside) (fits_spansAt.mpr fun k hk => hfits k (mem_lastFirst.mp hk))
  rw [← sum_lastFirst place is, ← sum_lastFirst place is fun k => (replacement k).length]
  simpa only [spansAt, List.map_map, Function.comp_def] using hspans

variable {place} in
/-- Places that do not lie side by side have two neighbours that overlap. -/
theorem pairwise_or_neighbours {order : List ι} (hproper : ∀ i ∈ order, (place i).1 ≤ (place i).2) :
    (order.Pairwise fun i k => (place k).2 ≤ (place i).1) ∨
      ∃ late i k early, order = late ++ i :: k :: early ∧ (place i).1 < (place k).2 := by
  induction order with
  | nil => exact .inl .nil
  | cons i rest ih =>
    obtain ⟨hi, hrest⟩ := List.forall_mem_cons.mp hproper
    rcases ih hrest with hpair | ⟨late, j, k, early, rfl, hlt⟩
    · cases rest with
      | nil => exact .inl (List.pairwise_singleton ..)
      | cons k rest =>
        rcases Nat.lt_or_ge (place i).1 (place k).2 with hlt | hle
        · exact .inr ⟨[], i, k, rest, rfl, hlt⟩
        · refine .inl (List.pairwise_cons.mpr
            ⟨List.forall_mem_cons.mpr ⟨hle, fun m hm => ?_⟩, hpair⟩)
          have hkm := (List.pairwise_cons.mp hpair).1 m hm
          have hk := (List.forall_mem_cons.mp hrest).1
          omega
    · exact .inr ⟨i :: late, j, k, early, rfl, hlt⟩

theorem pairwise_lastFirst (is : List ι) :
    (lastFirst place is).Pairwise fun i k => (place k).1 ≤ (place i).1 := by
  have hspans := pairwise_descending (spansAt place (fun _ => ([] : List Nat)) is)
  rw [descending_spansAt] at hspans
  exact List.pairwise_map.mp hspans

variable [DecidableEq ι]

/-- The replacements, with an element in front of one of them. -/
def mark (replacement : ι → List α) (i : ι) (a : α) (k : ι) : List α :=
  if k = i then a :: replacement k else replacement k

/-- The result with a mark, `none`, in front of the replacement at one place. -/
def marked (replacement : ι → List α) (is : List ι) (items : List α) (i : ι) : List (Option α) :=
  splice (items.map some)
    (spansAt place (mark (fun k => (replacement k).map some) i none) (lastFirst place is))

variable {place} {replacement : ι → List α} {is : List ι} {items : List α} {i : ι}

/-- The mark stands for any element. -/
theorem map_marked (a : α) : (marked place replacement is items i).map (·.getD a)
    = splice items (descending (spansAt place (mark replacement i a) is)) := by
  have hitems : (items.map some).map (·.getD a) = items := by simp
  have hspans : (spansAt place (mark (fun k => (replacement k).map some) i none)
      (lastFirst place is)).map (Span.map (·.getD a))
      = spansAt place (mark replacement i a) (lastFirst place is) := by
    rw [spansAt, List.map_map]
    refine List.map_congr_left fun k _ => ?_
    simp only [Function.comp_apply, Span.map, mark]
    split <;> simp
  rw [descending_spansAt, marked, ← splice_map, hitems, hspans]

theorem countP_map_some (p : α → Bool) (items : List α) :
    (items.map some).countP (Option.any p) = items.countP p :=
  List.countP_map

/-- Where the places lie side by side, the mark stands behind what the earlier places leave of the
elements in front of its own. -/
theorem marked_eq (hnodup : is.Nodup) (hi : i ∈ is)
    (hside : (lastFirst place is).Pairwise fun i k => (place k).2 ≤ (place i).1)
    (hfits : ∀ k ∈ is, (place k).1 ≤ (place k).2 ∧ (place k).2 ≤ items.length) :
    ∃ early after, (∀ k ∈ early, k ∈ is ∧ (place k).2 ≤ (place i).1) ∧
      (early.Pairwise fun i k => (place k).2 ≤ (place i).1) ∧
      marked place replacement is items i
        = (splice (items.take (place i).1) (spansAt place replacement early)).map some
          ++ none :: after := by
  obtain ⟨late, early, horder⟩ := List.append_of_mem (mem_lastFirst.mpr hi)
  have hdistinct : ∀ k ∈ early, k ≠ i := by
    have hall := (perm_lastFirst place is).nodup_iff.mpr hnodup
    rw [horder] at hall
    rintro k hk rfl
    exact (List.nodup_cons.mp (List.nodup_append.mp hall).2.1).1 hk
  have hmem : ∀ k ∈ late ++ i :: early, k ∈ is := fun k hk => mem_lastFirst.mp (horder ▸ hk)
  rw [horder] at hside
  obtain ⟨hbefore, hearly⟩ := List.pairwise_cons.mp (List.pairwise_append.mp hside).2.1
  set ρ := mark (fun k => (replacement k).map some) i none with hρ
  have hhere : ρ i = none :: (replacement i).map some := if_pos rfl
  have hthere : spansAt place ρ early = spansAt place (fun k => (replacement k).map some) early :=
    List.map_congr_left fun k hk => by rw [hρ, mark, if_neg (hdistinct k hk)]
  have hspans : SideBySide (spansAt place ρ (late ++ i :: early)) := sideBySide_spansAt.mpr hside
  have hall : ∀ span ∈ spansAt place ρ (late ++ i :: early), span.Fits (items.map some).length :=
    fits_spansAt.mpr fun k hk => by
      rw [List.length_map]
      exact hfits k (hmem k hk)
  rw [spansAt, List.map_append, List.map_cons, ← spansAt, ← spansAt] at hspans hall
  obtain ⟨after, hsplit⟩ := splice_split hspans hall
  refine ⟨early, (replacement i).map some ++ after, fun k hk => ⟨hmem k ?_, hbefore k hk⟩, hearly,
    ?_⟩
  · exact List.mem_append_right _ (List.mem_cons_of_mem _ hk)
  · rw [marked, horder, spansAt, List.map_append, List.map_cons, ← spansAt, ← spansAt, ← hρ, hsplit,
      hhere, hthere, map_spansAt, ← List.map_take, splice_map]
    rfl

/-- The mark comes after as many elements of a kind as its place does, if the replacements have as
many as what they replace. -/
theorem marked_split (p : α → Bool) (hnodup : is.Nodup) (hi : i ∈ is)
    (hside : (lastFirst place is).Pairwise fun i k => (place k).2 ≤ (place i).1)
    (hfits : ∀ k ∈ is, (place k).1 ≤ (place k).2 ∧ (place k).2 ≤ items.length)
    (hcount : ∀ k ∈ is, (replacement k).countP p
      = ((items.take (place k).2).drop (place k).1).countP p) :
    none ∈ marked place replacement is items i ∧
      ((marked place replacement is items i).takeWhile (·.isSome)).countP (Option.any p)
        = (items.take (place i).1).countP p := by
  obtain ⟨early, after, hbefore, hearly, hmarked⟩ :=
    @marked_eq α ι place _ replacement is items i hnodup hi hside hfits
  have hlength : (items.take (place i).1).length = (place i).1 :=
    List.length_take_of_le ((hfits i hi).1.trans (hfits i hi).2)
  have hfitsEarly : ∀ span ∈ spansAt place replacement early,
      span.Fits (items.take (place i).1).length := fits_spansAt.mpr fun k hk =>
    ⟨(hfits k (hbefore k hk).1).1, hlength.symm ▸ (hbefore k hk).2⟩
  have hcountEarly : ∀ span ∈ spansAt place replacement early,
      span.replacement.countP p = (span.covered (items.take (place i).1)).countP p :=
    List.forall_mem_map.mpr fun k hk => by
      rw [Span.covered_eq, List.take_take, Nat.min_eq_left (hbefore k hk).2]
      exact hcount k (hbefore k hk).1
  rw [hmarked]
  refine ⟨by simp, ?_⟩
  rw [List.takeWhile_append_of_pos (by simp), List.takeWhile_cons_of_neg (by simp),
    List.append_nil, countP_map_some,
    countP_splice p (sideBySide_spansAt.mpr hearly) hfitsEarly hcountEarly]

/-- Where an empty place and one with elements start together, the second takes the mark of the
first. -/
theorem exists_not_mem_marked (hnodup : is.Nodup)
    (hdisjoint : is.Pairwise fun i k => (place i).2 ≤ (place k).1 ∨ (place k).2 ≤ (place i).1)
    (hfits : ∀ k ∈ is, (place k).1 ≤ (place k).2 ∧ (place k).2 ≤ items.length)
    (hside : ¬ (lastFirst place is).Pairwise fun i k => (place k).2 ≤ (place i).1) :
    ∃ i ∈ is, none ∉ marked place replacement is items i := by
  have horderMem : ∀ k ∈ lastFirst place is, k ∈ is := fun k => mem_lastFirst.mp
  obtain ⟨late, i, k, early, horder, hlt⟩ :=
    (pairwise_or_neighbours fun i hi => (hfits i (horderMem i hi)).1).resolve_left hside
  have hmem : ∀ m ∈ late ++ i :: k :: early, m ∈ is := horder ▸ horderMem
  have hall := (perm_lastFirst place is).nodup_iff.mpr hnodup
  have hsorted := pairwise_lastFirst place is
  rw [horder] at hall hsorted
  have hi : i ∈ is := hmem i (by simp)
  have hk : k ∈ is := hmem k (by simp)
  obtain ⟨hlate, hrest, hcross⟩ := List.nodup_append.mp hall
  have hik : i ≠ k := fun h => (List.nodup_cons.mp hrest).1 (h ▸ List.mem_cons_self)
  have hother : ∀ m, m ∈ late ∨ m ∈ early → m ≠ i := by
    rintro m (hm | hm) rfl
    · exact hcross m hm m List.mem_cons_self rfl
    · exact (List.nodup_cons.mp hrest).1 (List.mem_cons_of_mem _ hm)
  have hki : (place k).1 ≤ (place i).1 :=
    (List.pairwise_cons.mp (List.pairwise_append.mp hsorted).2.1).1 k List.mem_cons_self
  have hsymm : Std.Symm fun i k => (place i).2 ≤ (place k).1 ∨ (place k).2 ≤ (place i).1 :=
    ⟨fun _ _ => Or.symm⟩
  have hdis := hdisjoint.forall hi hk hik
  have hproper := hfits i hi
  have hstop : (place i).2 = (place i).1 := by omega
  have hstart : (place k).1 = (place i).1 := by omega
  have hclean : ∀ m ≠ i, none ∉ mark (fun k => (replacement k).map some) i none m := fun m hm => by
    rw [mark, if_neg hm]
    simp
  refine ⟨i, hi, ?_⟩
  rw [marked, horder, spansAt, List.map_append, List.map_cons, List.map_cons]
  refine @not_mem_splice_of_overlap _ (items.map some) ((replacement i).map some) _ _ _ _ none
    (by simp) hstop hstart hlt (by simp; omega) (List.forall_mem_map.mpr fun m hm => ?_)
    (if_pos rfl) (by simp) (hclean k hik.symm) ?_
  · exact ⟨(hfits m (hmem m (by simp [hm]))).1,
      (List.pairwise_append.mp hsorted).2.2 m hm i List.mem_cons_self⟩
  · rintro _ (hspan | hspan)
    · obtain ⟨m, hm, rfl⟩ := List.mem_map.mp hspan
      exact hclean m (hother m (.inl hm))
    · obtain ⟨m, hm, rfl⟩ := List.mem_map.mp hspan
      exact hclean m (hother m (.inr hm))

end Family

/-! ## Two families -/

section Families

variable {ι : Type w} [DecidableEq ι] {e f : ι → Nat × Nat} {replacement : ι → List α}
  {is : List ι} {items : List α}

/-- **The marks agree** where the results do, with either of two elements for the mark. -/
theorem exists_marked_eq {a b : α} (hab : a ≠ b) {i : ι}
    (h : ∀ c, c = a ∨ c = b → splice items (descending (spansAt e (mark replacement i c) is))
      = splice items (descending (spansAt f (mark replacement i c) is))) :
    marked e replacement is items i = marked f replacement is items i := by
  refine map_getD_inj hab ?_ ?_
  · rw [map_marked, map_marked, h a (.inl rfl)]
  · rw [map_marked, map_marked, h b (.inr rfl)]

/-- **Places with the same results.**  Let the replacements have as many elements of a kind as what
they replace.  If the first family has elements everywhere, and the results agree with either of two
elements in front of any replacement, then each place of the one family has as many elements of the
kind in front of it as that of the other, and together they have as many elements. -/
theorem places_agree (p : α → Bool) {a b : α} (hab : a ≠ b) (hnodup : is.Nodup)
    (hefits : ∀ i ∈ is, (e i).1 < (e i).2 ∧ (e i).2 ≤ items.length)
    (hedisjoint : is.Pairwise fun i k => (e i).2 ≤ (e k).1 ∨ (e k).2 ≤ (e i).1)
    (hffits : ∀ i ∈ is, (f i).1 ≤ (f i).2 ∧ (f i).2 ≤ items.length)
    (hfdisjoint : is.Pairwise fun i k => (f i).2 ≤ (f k).1 ∨ (f k).2 ≤ (f i).1)
    (hecount : ∀ i ∈ is, (replacement i).countP p
      = ((items.take (e i).2).drop (e i).1).countP p)
    (hfcount : ∀ i ∈ is, (replacement i).countP p
      = ((items.take (f i).2).drop (f i).1).countP p)
    (h : ∀ i ∈ is, ∀ c, c = a ∨ c = b →
      splice items (descending (spansAt e (mark replacement i c) is))
        = splice items (descending (spansAt f (mark replacement i c) is))) :
    (∀ i ∈ is, (items.take (e i).1).countP p = (items.take (f i).1).countP p) ∧
      (is.map fun i => (e i).2 - (e i).1).sum = (is.map fun i => (f i).2 - (f i).1).sum := by
  have heproper : ∀ i ∈ is, (e i).1 ≤ (e i).2 ∧ (e i).2 ≤ items.length := fun i hi =>
    ⟨(hefits i hi).1.le, (hefits i hi).2⟩
  have heside : (lastFirst e is).Pairwise fun i k => (e k).2 ≤ (e i).1 := by
    refine ((pairwise_lastFirst e is).and (((perm_lastFirst e is).pairwise_iff
      fun h => h.symm).mpr hedisjoint)).imp_of_mem fun {i k} hi hk hik => ?_
    have := (hefits i (mem_lastFirst.mp hi)).1
    omega
  have hsplit := fun i (hi : i ∈ is) =>
    marked_split p hnodup hi heside heproper hecount
  have hfside : (lastFirst f is).Pairwise fun i k => (f k).2 ≤ (f i).1 := by
    by_contra hnot
    obtain ⟨i, hi, hnone⟩ :=
      @exists_not_mem_marked α ι f _ replacement is items hnodup hfdisjoint hffits hnot
    rw [← exists_marked_eq hab (h i hi)] at hnone
    exact hnone (hsplit i hi).1
  refine ⟨fun i hi => ?_, ?_⟩
  · rw [← (hsplit i hi).2, exists_marked_eq hab (h i hi)]
    exact (marked_split p hnodup hi hfside hffits hfcount).2
  · cases is with
    | nil => rfl
    | cons i rest =>
      have hsame := congrArg List.length (h i List.mem_cons_self a (.inl rfl))
      rw [descending_spansAt, descending_spansAt] at hsame
      have helength := @length_splice_spansAt α ι e (mark replacement i a) (i :: rest) items heside
        heproper
      have hflength := @length_splice_spansAt α ι f (mark replacement i a) (i :: rest) items hfside
        hffits
      omega

end Families

end Tile
