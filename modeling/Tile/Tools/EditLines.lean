import Tile.Tools.Edit

/-!
# Tools/EditLines — the lines of a text

`terminatedLines` cuts a text after each newline: the lines concatenate to the text, none is empty,
and only the last may lack its newline.  `terminatedLines_append` cuts where a newline stands.
-/

namespace Tile

open PyStr

/-! ## Newlines at the end -/

theorem endsWithLf_iff {s : PyStr} : endsWithLf s ↔ ∃ body, s = body ++ [lf] := by
  rw [endsWithLf, beq_iff_eq, List.getLast?_eq_some_iff]

theorem endsWithLf_of_not_mem {s : PyStr} (h : lf ∉ s) : endsWithLf s = false := by
  refine Bool.eq_false_iff.mpr fun hends => h ?_
  obtain ⟨body, rfl⟩ := endsWithLf_iff.mp hends
  simp

@[simp] theorem endsWithLf_append_lf (s : PyStr) : endsWithLf (s ++ [lf]) = true :=
  endsWithLf_iff.mpr ⟨s, rfl⟩

/-- A text ends as its last part does. -/
theorem endsWithLf_append {s t : PyStr} (ht : t ≠ []) : endsWithLf (s ++ t) = endsWithLf t := by
  rw [endsWithLf, endsWithLf, List.getLast?_append_of_ne_nil _ ht]

/-! ## Cutting into lines -/

theorem split_ne_nil (sep : CodePoint) (text : PyStr) : split sep text ≠ [] := by
  cases text with
  | nil => simp [split]
  | cons c rest =>
    rw [split]
    split
    · simp
    · split <;> simp

@[simp] theorem terminatedLines_nil : terminatedLines [] = [] := rfl

/-- A newline ends a line of its own. -/
theorem terminatedLines_lf (rest : PyStr) :
    terminatedLines (lf :: rest) = [lf] :: terminatedLines rest := by
  obtain ⟨part, parts, hparts⟩ := List.exists_cons_of_ne_nil (split_ne_nil lf rest)
  simp [terminatedLines, split, hparts]

/-- A character that is no newline joins the line it stands before. -/
theorem terminatedLines_cons {c : CodePoint} (hc : c ≠ lf) (rest : PyStr) :
    terminatedLines (c :: rest) = match terminatedLines rest with
      | [] => [[c]]
      | line :: lines => (c :: line) :: lines := by
  obtain ⟨part, parts, hparts⟩ := List.exists_cons_of_ne_nil (split_ne_nil lf rest)
  cases parts with
  | nil => by_cases hpart : part = [] <;> simp [terminatedLines, split, hc, hparts, hpart]
  | cons next parts => simp [terminatedLines, split, hc, hparts]

theorem terminatedLines_ne_nil {text : PyStr} (h : text ≠ []) : terminatedLines text ≠ [] := by
  cases text with
  | nil => exact absurd rfl h
  | cons c rest =>
    by_cases hc : c = lf
    · simp [hc, terminatedLines_lf]
    · rw [terminatedLines_cons hc]
      split <;> simp

/-- **The lines concatenate to the text.** -/
@[simp] theorem flatten_terminatedLines (text : PyStr) : (terminatedLines text).flatten = text := by
  induction text with
  | nil => rfl
  | cons c rest ih =>
    by_cases hc : c = lf
    · rw [hc, terminatedLines_lf, List.flatten_cons, ih]
      rfl
    · rw [terminatedLines_cons hc]
      cases hlines : terminatedLines rest with
      | nil =>
        rw [hlines] at ih
        simp [← ih]
      | cons line lines =>
        rw [hlines] at ih
        simp [← ih]

/-- **A text cut at a newline.** -/
theorem terminatedLines_append (before after : PyStr) :
    terminatedLines (before ++ lf :: after)
      = terminatedLines (before ++ [lf]) ++ terminatedLines after := by
  induction before with
  | nil => simp [terminatedLines_lf]
  | cons c rest ih =>
    by_cases hc : c = lf
    · simp [hc, terminatedLines_lf, ih]
    · obtain ⟨line, lines, hlines⟩ := List.exists_cons_of_ne_nil
        (terminatedLines_ne_nil (show rest ++ [lf] ≠ [] by simp))
      rw [List.cons_append, List.cons_append, terminatedLines_cons hc, terminatedLines_cons hc, ih,
        hlines]
      rfl

/-- What a line is: characters without newline, and then a newline or nothing more. -/
def IsLine (line : PyStr) : Prop :=
  ∃ body, lf ∉ body ∧ (line = body ++ [lf] ∨ line = body ∧ body ≠ [])

theorem IsLine.cons {c : CodePoint} (hc : c ≠ lf) {line : PyStr} (h : IsLine line) :
    IsLine (c :: line) := by
  obtain ⟨body, hbody, hline⟩ := h
  refine ⟨c :: body, by simp [Ne.symm hc, hbody], ?_⟩
  rcases hline with rfl | ⟨rfl, -⟩
  · exact .inl rfl
  · exact .inr ⟨rfl, List.cons_ne_nil _ _⟩

/-- What a text is split into are lines. -/
theorem isLine_of_mem {text line : PyStr} (h : line ∈ terminatedLines text) : IsLine line := by
  induction text generalizing line with
  | nil => simp at h
  | cons c rest ih =>
    by_cases hc : c = lf
    · rw [hc, terminatedLines_lf] at h
      rcases List.mem_cons.mp h with rfl | h
      · exact ⟨[], by simp, .inl rfl⟩
      · exact ih h
    · rw [terminatedLines_cons hc] at h
      cases hlines : terminatedLines rest with
      | nil =>
        rw [hlines] at h
        obtain rfl := List.mem_singleton.mp h
        exact ⟨[c], by simp [Ne.symm hc], .inr ⟨rfl, by simp⟩⟩
      | cons first lines =>
        rw [hlines] at h
        rcases List.mem_cons.mp h with rfl | h
        · exact .cons hc (ih (hlines ▸ List.mem_cons_self ..))
        · exact ih (hlines ▸ List.mem_cons_of_mem _ h)

theorem IsLine.ne_nil {line : PyStr} (h : IsLine line) : line ≠ [] := by
  obtain ⟨body, -, rfl | ⟨rfl, hne⟩⟩ := h
  · simp
  · exact hne

theorem IsLine.lf_not_mem {line : PyStr} (h : IsLine line) (hopen : endsWithLf line = false) :
    lf ∉ line := by
  obtain ⟨body, hbody, rfl | ⟨rfl, -⟩⟩ := h
  · simp at hopen
  · exact hbody

theorem flatten_eq_nil_iff {lines : List PyStr} (hlines : ∀ line ∈ lines, IsLine line) :
    lines.flatten = [] ↔ lines = [] := by
  constructor
  · intro h
    cases lines with
    | nil => rfl
    | cons line lines =>
      exact absurd (List.append_eq_nil_iff.mp h).1 (hlines line List.mem_cons_self).ne_nil
  · rintro rfl
    rfl

/-- **Only the last line may lack its newline.** -/
theorem endsWithLf_of_lt {text : PyStr} {i : Nat} {line : PyStr}
    (hline : (terminatedLines text)[i]? = some line) (hlt : i + 1 < (terminatedLines text).length) :
    endsWithLf line := by
  induction text generalizing i line with
  | nil => simp at hline
  | cons c rest ih =>
    by_cases hc : c = lf
    · rw [hc, terminatedLines_lf] at hline hlt
      cases i with
      | zero =>
        obtain rfl : [lf] = line := by simpa using hline
        rfl
      | succ i => exact ih (by simpa using hline) (by simpa using hlt)
    · rw [terminatedLines_cons hc] at hline hlt
      cases hlines : terminatedLines rest with
      | nil => simp [hlines] at hlt
      | cons first lines =>
        rw [hlines] at hline hlt
        cases i with
        | zero =>
          obtain rfl : c :: first = line := by simpa using hline
          have hmem : first ∈ terminatedLines rest := hlines ▸ List.mem_cons_self ..
          have hne := (isLine_of_mem hmem).ne_nil
          have hfirst : endsWithLf first :=
            ih (i := 0) (by rw [hlines]; rfl) (by rw [hlines]; simpa using hlt)
          rw [endsWithLf] at hfirst ⊢
          rwa [List.getLast?_cons_of_ne_nil hne]
        | succ i =>
          exact ih (i := i + 1) (by rw [hlines]; simpa using hline)
            (by rw [hlines]; simpa using hlt)

/-! ## Lines that stand by themselves -/

/-- A text without a newline belongs to the line behind it. -/
theorem terminatedLines_append_cons {text rest line : PyStr} {lines : List PyStr} (h : lf ∉ text)
    (hrest : terminatedLines rest = line :: lines) :
    terminatedLines (text ++ rest) = (text ++ line) :: lines := by
  induction text with
  | nil => exact hrest
  | cons c text ih =>
    obtain ⟨hc, htext⟩ : lf ≠ c ∧ lf ∉ text := by simpa using h
    rw [List.cons_append, terminatedLines_cons (Ne.symm hc), ih htext, List.cons_append]

/-- A line that has its newline stays the first line, whatever is behind it. -/
theorem terminatedLines_cons_line {line : PyStr} (h : IsLine line) (hends : endsWithLf line)
    (rest : PyStr) : terminatedLines (line ++ rest) = line :: terminatedLines rest := by
  obtain ⟨body, hbody, rfl | ⟨rfl, -⟩⟩ := h
  · rw [List.append_assoc]
    exact terminatedLines_append_cons hbody (terminatedLines_lf rest)
  · exact absurd (List.mem_of_getLast? (beq_iff_eq.mp hends)) hbody

/-- A line is split into itself. -/
theorem terminatedLines_line {line : PyStr} (h : IsLine line) : terminatedLines line = [line] := by
  obtain ⟨body, hbody, rfl | ⟨rfl, hne⟩⟩ := h
  · exact terminatedLines_append_cons hbody (terminatedLines_lf [])
  · obtain ⟨init, last, rfl⟩ := (List.eq_nil_or_concat' line).resolve_left hne
    obtain ⟨hinit, hlast⟩ : lf ∉ init ∧ lf ≠ last := by simpa using hbody
    exact terminatedLines_append_cons hinit (terminatedLines_cons (Ne.symm hlast) [])

end Tile
