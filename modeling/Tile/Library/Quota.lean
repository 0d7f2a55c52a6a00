import Mathlib.Data.List.Basic
import Mathlib.Tactic.Common

/-!
# Library/Quota — a list up to a quota

The elements of a list in front of the one that exceeds a quota.  A reader who misses some elements,
and tells two of them apart only by what `view` shows, **sees the same ones exactly when none that
counts was missed** (`quota_filter_iff`).
-/

variable {α β : Type*} (p : α → Bool)

/-- What is left of the quota after an element. -/
def leftOfQuota (quota : Nat) (a : α) : Nat := if p a then quota - 1 else quota

/-- The elements in front of the one with the property that is too much. -/
def withinQuota (quota : Nat) : List α → List α
  | [] => []
  | a :: as => if p a ∧ quota = 0 then [] else a :: withinQuota (leftOfQuota p quota a) as

/-- The elements from the one on that is too much. -/
def beyondQuota (quota : Nat) : List α → List α
  | [] => []
  | a :: as => if p a ∧ quota = 0 then a :: as else beyondQuota (leftOfQuota p quota a) as

variable {p}

section Step

variable {quota : Nat} {a : α} {as : List α}

theorem withinQuota_cons (h : ¬ (p a = true ∧ quota = 0)) :
    withinQuota p quota (a :: as) = a :: withinQuota p (leftOfQuota p quota a) as := if_neg h

theorem beyondQuota_cons (h : ¬ (p a = true ∧ quota = 0)) :
    beyondQuota p quota (a :: as) = beyondQuota p (leftOfQuota p quota a) as := if_neg h

end Step

theorem beyondQuota_ne_nil_iff {quota : Nat} {as : List α} :
    beyondQuota p quota as ≠ [] ↔ quota < as.countP p := by
  induction as generalizing quota with
  | nil => simp [beyondQuota]
  | cons a as ih =>
    by_cases h : p a = true ∧ quota = 0
    · rw [beyondQuota, if_pos h, List.countP_cons_of_pos h.1, h.2]
      simp
    · rw [beyondQuota_cons h, ih, leftOfQuota]
      by_cases hp : p a = true
      · have hpos : quota ≠ 0 := fun hzero => h ⟨hp, hzero⟩
        rw [if_pos hp, List.countP_cons_of_pos hp]
        omega
      · rw [if_neg hp, List.countP_cons_of_neg hp]

/-- A list cut short shows no other elements. -/
theorem withinQuota_isPrefix {quota : Nat} {as bs : List α} (h : as <+: bs) :
    withinQuota p quota as <+: withinQuota p quota bs := by
  obtain ⟨rest, rfl⟩ := h
  induction as generalizing quota with
  | nil => exact List.nil_prefix
  | cons a as ih =>
    by_cases hfull : p a = true ∧ quota = 0
    · rw [withinQuota, if_pos hfull]
      exact List.nil_prefix
    · rw [List.cons_append, withinQuota_cons hfull, withinQuota_cons hfull]
      exact (List.prefix_cons_inj a).mpr ih

/-- It shows all of them if it exceeds the quota. -/
theorem withinQuota_append_of_lt {quota : Nat} {as : List α} (h : quota < as.countP p)
    (rest : List α) : withinQuota p quota (as ++ rest) = withinQuota p quota as := by
  induction as generalizing quota with
  | nil => cases h
  | cons a as ih =>
    by_cases hfull : p a = true ∧ quota = 0
    · rw [List.cons_append, withinQuota, withinQuota, if_pos hfull, if_pos hfull]
    · rw [List.cons_append, withinQuota_cons hfull, withinQuota_cons hfull, ih]
      rw [leftOfQuota]
      by_cases ha : p a = true
      · have hpos : quota ≠ 0 := fun hzero => hfull ⟨ha, hzero⟩
        rw [List.countP_cons_of_pos ha] at h
        rw [if_pos ha]
        omega
      · rwa [if_neg ha, ← List.countP_cons_of_neg ha]

theorem withinQuota_of_le {quota : Nat} {as : List α} (h : as.countP p ≤ quota) :
    withinQuota p quota as = as := by
  induction as generalizing quota with
  | nil => rfl
  | cons a as ih =>
    by_cases ha : p a = true
    · rw [List.countP_cons_of_pos ha] at h
      rw [withinQuota_cons fun hfull => by omega, ih]
      rw [leftOfQuota, if_pos ha]
      omega
    · rw [List.countP_cons_of_neg ha] at h
      rw [withinQuota_cons fun hfull => ha hfull.1, ih]
      rwa [leftOfQuota, if_neg ha]

theorem withinQuota_ne_nil {quota : Nat} {as : List α} (hquota : 1 ≤ quota) (h : as ≠ []) :
    withinQuota p quota as ≠ [] := by
  obtain ⟨a, rest, rfl⟩ := List.exists_cons_of_ne_nil h
  rw [withinQuota_cons fun hfull => by omega]
  exact List.cons_ne_nil _ _

/-- Of what is in front, everything has the property of all. -/
theorem mem_of_mem_withinQuota {quota : Nat} {a : α} {as : List α}
    (h : a ∈ withinQuota p quota as) : a ∈ as := by
  induction as generalizing quota with
  | nil => exact h
  | cons b as ih =>
    rw [withinQuota] at h
    split at h
    · exact absurd h List.not_mem_nil
    · rcases List.mem_cons.mp h with rfl | h
      · exact List.mem_cons_self
      · exact List.mem_cons_of_mem _ (ih h)

/-- Nothing is in front of the first element exactly when it exceeds the quota. -/
theorem quota_zero_iff {as : List α} :
    withinQuota p 0 as = [] ∧ beyondQuota p 0 as ≠ [] ↔ as.head?.any p = true := by
  cases as with
  | nil => simp [beyondQuota]
  | cons a as =>
    by_cases h : p a = true
    · simp [withinQuota, beyondQuota, h]
    · simp [withinQuota, h]

/-- **What is seen up to a quota** of a list with elements missing: the same, exactly when none of
what is within the quota misses, and the first that is there beyond it is one that counts. -/
theorem quota_filter_iff (p : α → Bool) {seen : α → Bool} {view : α → β}
    (hview : ∀ a b, view a = view b → seen a = seen b) (quota : Nat) (as : List α) :
    ((withinQuota p quota (as.filter seen)).map view = (withinQuota p quota as).map view ∧
      (beyondQuota p quota (as.filter seen) ≠ [] ↔ beyondQuota p quota as ≠ [])) ↔
    (∀ a ∈ withinQuota p quota as, seen a = true) ∧
      (beyondQuota p quota as ≠ [] →
        ((beyondQuota p quota as).find? seen).any p = true) := by
  induction as generalizing quota with
  | nil => simp [withinQuota, beyondQuota]
  | cons a as ih =>
    by_cases h : p a = true ∧ quota = 0
    · obtain ⟨hp, rfl⟩ := h
      have hwithin : withinQuota p 0 (a :: as) = [] := if_pos ⟨hp, rfl⟩
      have hbeyond : beyondQuota p 0 (a :: as) = a :: as := if_pos ⟨hp, rfl⟩
      rw [hwithin, hbeyond, ← List.head?_filter, ← quota_zero_iff]
      simp
    · rw [withinQuota_cons h, beyondQuota_cons h]
      cases hseen : seen a with
      | true =>
        rw [List.filter_cons_of_pos hseen, withinQuota_cons h, beyondQuota_cons h]
        simpa [hseen] using ih (leftOfQuota p quota a)
      | false =>
        -- nothing that is seen shows as `a` does
        refine iff_of_false (fun ⟨hsame, _⟩ => ?_) fun ⟨hall, _⟩ => ?_
        · have hmem : view a ∈ (withinQuota p quota ((a :: as).filter seen)).map view :=
            hsame ▸ List.mem_cons_self
          obtain ⟨b, hb, hshows⟩ := List.mem_map.mp hmem
          have hb := (List.mem_filter.mp (mem_of_mem_withinQuota hb)).2
          rw [hview b a hshows, hseen] at hb
          cases hb
        · rw [hall a List.mem_cons_self] at hseen
          cases hseen
